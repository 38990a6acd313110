import HotPath.Concurrency.MapInvariant

/-!
# The steps of the map keep the invariant

There is one lemma for every kind of step: a thread moves on (`Inv.goto`), the engine takes a step
(`Inv.ebrStep`), memory is allocated or a counter changes (`Inv.extend`), a new table is published
(`Inv.publish`), or a link is stored (`Inv.splice`). `Inv.step` puts them together for the steps
that `inOrder` allows.
-/

namespace HotPath.Concurrency.MapSteps

open HotPath.Foundation

variable {K V : Type} {cfg : MapConfig K}

/-- The invariant of a run. -/
structure Inv (cfg : MapConfig K) (memory : Memory K V) (workers : ThreadId → Worker K V)
    (history : History Object) (blocks : List TcbId) (chains : Chains) (contents : K → Option V) :
    Prop where
  shared : SharedInv memory.ebr history blocks
  threads : ∀ tid, ThreadInv memory.ebr history blocks tid (workers tid).thread
  heap : HeapInv cfg memory.map chains contents
  life : LifeInv memory.map chains history
  freed : FreedInv memory chains
  places : ∀ tid, PlaceInv cfg memory history chains contents tid (workers tid)

section Assembly

variable {memory memory' : Memory K V} {workers : ThreadId → Worker K V} {worker' : Worker K V}
  {history history' : History Object} {blocks blocks' : List TcbId} {chains chains' : Chains}
  {contents contents' : K → Option V} {tid : ThreadId} {map' : RcuHashMap K V}

/-- A step of one thread keeps the invariant of the others as well. -/
theorem Inv.moved (h : Inv cfg memory workers history blocks chains contents)
    (hshared : SharedInv memory'.ebr history' blocks')
    (hthread : ThreadInv memory'.ebr history' blocks' tid worker'.thread)
    (hheap : HeapInv cfg memory'.map chains' contents')
    (hlife : LifeInv memory'.map chains' history')
    (hfreed : FreedInv memory' chains')
    (hplace : PlaceInv cfg memory' history' chains' contents' tid worker')
    (hothers : ∀ other, other ≠ tid →
      Rely other memory.ebr history blocks memory'.ebr history' blocks' ∧
        Frame other memory history chains contents memory' history' chains' contents') :
    Inv cfg memory' (Function.update workers tid worker') history' blocks' chains' contents' := by
  refine ⟨hshared, fun other => ?_, hheap, hlife, hfreed, fun other => ?_⟩ <;>
    by_cases heq : other = tid
  · subst heq
    rwa [Function.update_self]
  · rw [Function.update_of_ne heq]
    exact (hothers other heq).1.threadInv h.shared (h.threads other)
  · subst heq
    rwa [Function.update_self]
  · rw [Function.update_of_ne heq]
    exact (h.places other).frame (hothers other heq).2

/-- A thread moves on, and nothing that is shared changes. -/
theorem Inv.goto (h : Inv cfg memory workers history blocks chains contents)
    (hthread : worker'.thread = (workers tid).thread)
    (hplace : PlaceInv cfg memory history chains contents tid worker') :
    Inv cfg memory (Function.update workers tid worker') history blocks chains contents := by
  refine h.moved h.shared ?_ h.heap h.life h.freed hplace fun other _ => ⟨Rely.refl, ?_⟩
  · rw [hthread]
    exact h.threads tid
  · exact ⟨rfl, UInt64.le_refl _, Nat.le_refl _, fun _ _ h => h, fun _ _ h => h,
      fun hlocked => ⟨hlocked, rfl, rfl, rfl, fun _ _ => rfl⟩⟩

/-! ## The engine -/

/-- A step that unlinks nothing keeps tables safe. -/
theorem SafeTable.calm {other : ThreadId} {table : TableId} (h : SafeTable history other table)
    (hcalm : Calm tid history history')
    (hpins : ∀ object, history'.pins object other = history.pins object other) :
    SafeTable history' other table := by
  rcases h with hlive | hpinned
  · exact .inl ((hcalm.live _).mp hlive)
  · exact .inr ((hpins _).trans hpinned)

theorem SafeNode.calm {other : ThreadId} {node : NodeId} (h : SafeNode history chains other node)
    (hcalm : Calm tid history history')
    (hpins : ∀ object, history'.pins object other = history.pins object other) :
    SafeNode history' chains other node := by
  rcases h with ⟨table, i, hmem, hsafe⟩ | hpinned
  · exact .inl ⟨table, i, hmem, hsafe.calm hcalm hpins⟩
  · exact .inr ((hpins _).trans hpinned)

theorem LifeInv.calm {map : RcuHashMap K V} (h : LifeInv map chains history)
    (hcalm : Calm tid history history') : LifeInv map chains history' := by
  refine ⟨fun table i node hmem => (hcalm.live _).mp (h.live table i node hmem),
    (hcalm.live _).mp h.current, fun object hstage => h.retired object fun hlive =>
      hstage ((hcalm.live _).mp hlive), fun node other successor hpinned hnext => ?_⟩
  rcases hcalm.pins other with hsame | ⟨-, hnone⟩
  · rw [hsame] at hpinned
    exact (h.pinned node other successor hpinned hnext).calm hcalm hsame
  · rw [hnone] at hpinned
    cases hpinned

/-- A step inside the engine keeps the invariant. Unlinked objects move on only in a step of the
thread that holds the write mutex. -/
theorem Inv.ebrStep (h : Inv cfg memory workers history blocks chains contents)
    (worker' : Worker K V)
    (hstep : EbrStep memory history blocks tid memory' history' worker'.thread)
    (hunlinked : memory.writeMutex = some tid ∨
      ∀ object, history.stage object = .unlinked → history'.stage object = .unlinked)
    (hplace : PlaceInv cfg memory' history' chains contents tid worker') :
    ∃ blocks', Inv cfg memory' (Function.update workers tid worker') history' blocks' chains
      contents := by
  obtain ⟨⟨blocks', hshared, hthread, hrely⟩, hcalm, hmap, hmutex, fresh, hdeleted, hfreed⟩ := hstep
  refine ⟨blocks', h.moved hshared hthread (hmap ▸ h.heap) (hmap ▸ h.life.calm hcalm) ?_ hplace
    fun other hne => ⟨hrely other hne, ?_⟩⟩
  · -- What is deleted now had been unlinked, so it is allocated.
    unfold FreedInv
    rw [hfreed, hdeleted, List.flatMap_append, hmap, h.freed]
    refine congrArg _ (List.flatMap_congr fun object hmem => destroyed_eq h.heap ?_)
    refine h.life.retired object fun hlive => ?_
    have hstage := hshared.deleted object (by simp [hdeleted, hmem])
    rw [(hcalm.live object).mp hlive] at hstage
    cases hstage
  · have hpins : ∀ object, history'.pins object other = history.pins object other := by
      rcases hcalm.pins other with hsame | ⟨heq, -⟩
      · exact hsame
      · exact absurd heq hne
    refine ⟨(hrely other hne).announced, (hrely other hne).epoch, ?_,
      fun _ table hsafe => hsafe.calm hcalm hpins, fun _ node hsafe => hsafe.calm hcalm hpins,
      fun hlocked => ⟨hmutex ▸ hlocked, hmap, rfl, rfl, fun object hstage => ?_⟩⟩
    · exact Nat.le_of_eq (by rw [hmap])
    · rcases hunlinked with htid | hkeep
      · rw [hlocked] at htid
        exact absurd (Option.some.inj htid) hne
      · rcases hstage with hstage | hstage
        · rw [hstage, hkeep object hstage]
        · rw [hstage, (hcalm.live object).mp hstage]

/-! ## Allocation -/

/-- A safe node stays in the chains when memory is allocated. -/
theorem SafeNode.extend {other : ThreadId} {node : NodeId} (h : SafeNode history chains other node)
    (hheap : HeapInv cfg memory.map chains contents)
    (hchains : ∀ table < memory.map.tableCount, chains' table = chains table) :
    SafeNode history chains' other node := by
  rcases h with ⟨table, i, hmem, hsafe⟩ | hpinned
  · exact .inl ⟨table, i, by rwa [hchains table (hheap.allocated table i node hmem).1], hsafe⟩
  · exact .inr hpinned

/-- Memory is allocated, a counter changes, or the mutex is taken or released. No other thread
holds the mutex. -/
theorem Inv.extend {mutex : Option ThreadId}
    (h : Inv cfg memory workers history blocks chains contents)
    (hmutex : ∀ other, other ≠ tid → memory.writeMutex ≠ some other)
    (hext : Extends memory.map map') (hheap : HeapInv cfg map' chains' contents)
    (hchains : ∀ table < memory.map.tableCount, chains' table = chains table)
    (hfresh : ∀ table i node, node ∈ chains' table i →
      node ∈ chains table i ∨ memory.map.nodeCount ≤ node)
    (hthread : worker'.thread = (workers tid).thread)
    (hplace : PlaceInv cfg { memory with map := map', writeMutex := mutex } history chains' contents
      tid worker') :
    Inv cfg { memory with map := map', writeMutex := mutex } (Function.update workers tid worker')
      history blocks chains' contents := by
  refine h.moved h.shared ?_ hheap ⟨fun table i node hmem => ?_, ?_, fun object hstage => ?_, ?_⟩ ?_
    hplace fun other hne => ⟨Rely.refl, ?_⟩
  · rw [hthread]
    exact h.threads tid
  · rcases hfresh table i node hmem with hold | hnew
    · exact h.life.live table i node hold
    · by_contra hlive
      exact absurd (h.life.retired _ hlive) (Nat.not_lt.mpr hnew)
  · exact hext.table ▸ h.life.current
  · have halloc := h.life.retired object hstage
    cases object with
    | node node => exact Nat.lt_of_lt_of_le halloc hext.nodeCount
    | table table => exact Nat.lt_of_lt_of_le halloc hext.tableCount
  · intro node other successor hpinned hnext
    have halloc : node < memory.map.nodeCount :=
      h.life.retired (.node node) (not_live_of_pins h.shared hpinned)
    exact (h.life.pinned node other successor hpinned (hext.next_eq halloc ▸ hnext)).extend h.heap
      hchains
  · refine h.freed.trans (List.flatMap_congr fun object hmem => (owned_congr ?_).symm)
    rintro table rfl
    have halloc : table < memory.map.tableCount :=
      h.life.retired (.table table) (by simp [h.shared.deleted _ hmem])
    exact ⟨by rw [hext.tables table halloc], hchains table halloc⟩
  · exact ⟨rfl, UInt64.le_refl _, hext.tableCount, fun _ _ hsafe => hsafe,
      fun _ node hsafe => hsafe.extend h.heap hchains,
      fun hlocked => absurd hlocked (hmutex other hne)⟩

/-! ## Unlinking -/

/-- At most one object is unlinked. The threads that have announced themselves pin it. -/
structure Unlinks (history history' : History Object) (unlinked : Option Object) : Prop where
  announced : history'.announced = history.announced
  others : ∀ object, unlinked ≠ some object →
    history'.stage object = history.stage object ∧ history'.pins object = history.pins object
  unlinked : ∀ object, unlinked = some object → history'.stage object = .unlinked ∧
    ∀ tid, history'.pins object tid = true ↔ history.announced tid ≠ none

theorem Unlinks.none : Unlinks history history none :=
  ⟨rfl, fun _ _ => ⟨rfl, rfl⟩, by simp⟩

theorem Unlinks.unlink (history : History Object) (object : Object) :
    Unlinks history (history.unlink object) (some object) := by
  refine ⟨rfl, fun other hne => ?_, fun other heq => ?_⟩
  · have hne' : other ≠ object := fun heq => hne (heq ▸ rfl)
    simp [History.unlink, History.setStage, Function.update_of_ne hne']
  · obtain rfl := Option.some.inj heq
    simp [History.unlink, History.setStage, Option.isSome_iff_ne_none]

theorem SafeTable.unlinks {unlinked : Option Object} {other : ThreadId} {table : TableId}
    (h : SafeTable history other table) (hunlinks : Unlinks history history' unlinked)
    (hannounced : history.announced other ≠ none) : SafeTable history' other table := by
  by_cases heq : unlinked = some (.table table)
  · exact .inr (((hunlinks.unlinked _ heq).2 other).mpr hannounced)
  · obtain ⟨hstage, hpins⟩ := hunlinks.others _ heq
    unfold SafeTable
    rwa [hstage, hpins]

theorem SafeNode.unlinks {unlinked : Option Object} {other : ThreadId} {node : NodeId}
    (h : SafeNode history chains other node) (hunlinks : Unlinks history history' unlinked)
    (hannounced : history.announced other ≠ none)
    (hnew : ∀ table i, ∀ node ∈ chains table i,
      node ∈ chains' table i ∨ unlinked = some (.node node)) :
    SafeNode history' chains' other node := by
  by_cases heq : unlinked = some (.node node)
  · exact .inr (((hunlinks.unlinked _ heq).2 other).mpr hannounced)
  · rcases h with ⟨table, i, hmem, hsafe⟩ | hpinned
    · rcases hnew table i node hmem with hmem' | heq'
      · exact .inl ⟨table, i, hmem', hsafe.unlinks hunlinks hannounced⟩
      · exact absurd heq' heq
    · rw [← (hunlinks.others _ heq).2] at hpinned
      exact .inr hpinned

/-- A store to the map drains, and unlinks at most one object. -/
theorem Inv.unlinks {unlinked : Option Object}
    (h : Inv cfg memory workers history blocks chains contents)
    (hmutex : ∀ other, other ≠ tid → memory.writeMutex ≠ some other)
    (hunlinks : Unlinks history history' unlinked)
    (hlive : ∀ object, unlinked = some object → history.stage object = .live)
    (hhistory : history' = (unlinked.map history.unlink).getD history)
    (hnew : ∀ table i, ∀ node ∈ chains table i,
      node ∈ chains' table i ∨ unlinked = some (.node node))
    (hkeep : ∀ table, history.stage (.table table) = .deleted →
      (map'.tables table).size = (memory.map.tables table).size ∧ chains' table = chains table)
    (hcount : memory.map.tableCount ≤ map'.tableCount)
    (hheap : HeapInv cfg map' chains' contents') (hlife : LifeInv map' chains' history')
    (hthread : worker'.thread = (workers tid).thread)
    (hplace : PlaceInv cfg { memory with map := map' } history' chains' contents' tid worker') :
    Inv cfg { memory with map := map' } (Function.update workers tid worker') history' blocks
      chains' contents' := by
  have hboth : SharedInv memory.ebr history' blocks ∧
      ∀ other, Rely other memory.ebr history blocks memory.ebr history' blocks := by
    cases unlinked with
    | none =>
        obtain rfl : history' = history := hhistory
        exact ⟨h.shared, fun _ => Rely.refl⟩
    | some object =>
        obtain rfl : history' = history.unlink object := hhistory
        exact ⟨h.shared.unlink (hlive object rfl), fun _ => Rely.unlink (hlive object rfl)⟩
  refine h.moved hboth.1 ?_ hheap hlife ?_ hplace fun other hne => ⟨hboth.2 other, ?_⟩
  · rw [hthread]
    exact (hboth.2 tid).threadInv h.shared (h.threads tid)
  · refine h.freed.trans (List.flatMap_congr fun object hmem => (owned_congr ?_).symm)
    rintro table rfl
    exact hkeep table (h.shared.deleted _ hmem)
  · exact ⟨congrFun hunlinks.announced other, UInt64.le_refl _, hcount,
      fun hannounced table hsafe => hsafe.unlinks hunlinks hannounced,
      fun hannounced node hsafe => hsafe.unlinks hunlinks hannounced hnew,
      fun hlocked => absurd hlocked (hmutex other hne)⟩

/-- A table is replaced. The threads that have announced themselves pin the old one. -/
theorem Inv.publish {newTable : TableId}
    (h : Inv cfg memory workers history blocks chains contents)
    (hmutex : ∀ other, other ≠ tid → memory.writeMutex ≠ some other)
    (hne : newTable ≠ memory.map.table) (hlive : history.stage (.table newTable) = .live)
    (hnew : Represents cfg (memory.map.publish newTable) (chains newTable) contents)
    (hthread : worker'.thread = (workers tid).thread)
    (hplace : PlaceInv cfg { memory with map := memory.map.publish newTable }
      (history.unlink (.table memory.map.table)) chains contents tid worker') :
    Inv cfg { memory with map := memory.map.publish newTable }
      (Function.update workers tid worker') (history.unlink (.table memory.map.table)) blocks chains
      contents := by
  have hunlinks := Unlinks.unlink history (.table memory.map.table)
  have hnode : ∀ node, some (Object.table memory.map.table) ≠ some (.node node) := by simp
  refine h.unlinks hmutex hunlinks ?_ rfl (fun _ _ _ hmem => .inl hmem) (fun _ _ => ⟨rfl, rfl⟩)
    (Nat.le_refl _) (h.heap.publish hnew) ⟨?_, ?_, ?_, ?_⟩ hthread hplace
  · rintro object heq
    obtain rfl := Option.some.inj heq
    exact h.life.current
  · intro table i node hmem
    rw [(hunlinks.others _ (hnode node)).1]
    exact h.life.live table i node hmem
  · change (history.unlink _).stage (.table newTable) = .live
    rw [(hunlinks.others (.table newTable) (by simpa using Ne.symm hne)).1]
    exact hlive
  · intro object hstage
    by_cases heq : some (Object.table memory.map.table) = some object
    · obtain rfl := Option.some.inj heq
      exact h.heap.represents.table_lt
    · rw [(hunlinks.others _ heq).1] at hstage
      exact h.life.retired object hstage
  · intro node other successor hpinned hnext
    rw [(hunlinks.others _ (hnode node)).2] at hpinned
    exact (h.life.pinned node other successor hpinned hnext).unlinks hunlinks
      (h.shared.pins _ other hpinned).2.2 fun _ _ _ hmem => .inl hmem

/-- The store of a link keeps track of what is safe. -/
theorem LifeInv.splice {map : RcuHashMap K V} {i : Nat} {before fresh after : List NodeId}
    {unlinked : Option NodeId} (h : LifeInv map chains history)
    (hshared : SharedInv memory.ebr history blocks) (hheap : HeapInv cfg map chains contents)
    (hsplice : Splice cfg map chains i before unlinked.toList fresh after contents')
    (hfresh : ∀ node ∈ fresh, history.stage (.node node) = .live)
    (hunlinks : Unlinks history history' (unlinked.map .node)) :
    LifeInv (map.storeLink i before.getLast? (fresh ++ after).head?)
      (spliced chains map.table i (before ++ (fresh ++ after))) history' := by
  have hlink := link_storeLink map i before (fresh ++ after)
  have htable : ∀ table, unlinked.map Object.node ≠ some (.table table) := by
    cases unlinked <;> simp
  have hmiddle : ∀ node, unlinked.map Object.node = some (.node node) → node ∈ unlinked.toList := by
    cases unlinked <;> simp
  have hnodes : map.nodeCount ≤
    (map.storeLink i before.getLast? (fresh ++ after).head?).nodeCount :=
    hlink.grow
  have hnew : ∀ table j, ∀ node ∈ chains table j,
      node ∈ spliced chains map.table i (before ++ (fresh ++ after)) table j ∨
        unlinked.map Object.node = some (.node node) := by
    intro table j node hmem
    rcases hsplice.mem_new hmem with hin | hout
    · exact .inl hin
    · exact .inr (by simpa using hout)
  refine ⟨fun table j node hmem => ?_, ?_, fun object hstage => ?_, ?_⟩
  · have hkeep : unlinked.map Object.node ≠ some (.node node) := fun heq =>
      hsplice.gone hheap (hmiddle node heq) table j hmem
    rw [(hunlinks.others _ hkeep).1]
    rcases hsplice.mem_old hmem with hold | ⟨-, -, hnode⟩
    · exact h.live table j node hold
    · exact hfresh node hnode
  · rw [hlink.table, (hunlinks.others _ (htable _)).1]
    exact h.current
  · by_cases heq : unlinked.map Object.node = some object
    · cases unlinked with
      | none => cases heq
      | some node =>
          obtain rfl := Option.some.inj heq
          have hmem : node ∈ chains map.table i := by simp [hsplice.chain]
          exact Nat.lt_of_lt_of_le (hheap.allocated _ _ node hmem).2.2 hnodes
    · rw [(hunlinks.others _ heq).1] at hstage
      have halloc := h.retired object hstage
      cases object with
      | node node => exact Nat.lt_of_lt_of_le halloc hnodes
      | table table => exact Nat.lt_of_lt_of_eq halloc hlink.tableCount.symm
  · intro node other successor hpinned hnext
    by_cases heq : unlinked.map Object.node = some (.node node)
    · -- The node has just been unlinked. What follows it is still in the current table.
      cases unlinked with
      | none => cases heq
      | some removed =>
          obtain rfl : removed = node := by simpa using heq
          have hmem := hsplice.next_removed hheap hnext
          refine .inl ⟨map.table, i, by simp [spliced, hmem], .inl ?_⟩
          rw [(hunlinks.others _ (htable _)).1]
          exact h.current
    · rw [(hunlinks.others _ heq).2] at hpinned
      -- A pinned node is in no chain, so its pointer does not change.
      have hstage := not_live_of_pins hshared hpinned
      have hout : node ∉ chains map.table i := fun hmem => hstage (h.live _ _ node hmem)
      rw [hsplice.next_eq hout (h.retired _ hstage)] at hnext
      exact (h.pinned node other successor hpinned hnext).unlinks hunlinks
        (hshared.pins _ other hpinned).2.2 hnew

/-- The store of a link drains. -/
theorem Inv.splice {i : Nat} {before fresh after : List NodeId} {unlinked : Option NodeId}
    (h : Inv cfg memory workers history blocks chains contents)
    (hmutex : ∀ other, other ≠ tid → memory.writeMutex ≠ some other)
    (hsplice : Splice cfg memory.map chains i before unlinked.toList fresh after contents')
    (hfresh : ∀ node ∈ fresh, history.stage (.node node) = .live)
    (hunlinks : Unlinks history history' (unlinked.map .node))
    (hhistory : history' = ((unlinked.map .node).map history.unlink).getD history)
    (hthread : worker'.thread = (workers tid).thread)
    (hplace : PlaceInv cfg
      { memory with map := memory.map.storeLink i before.getLast? (fresh ++ after).head? } history'
      (spliced chains memory.map.table i (before ++ (fresh ++ after))) contents' tid worker') :
    Inv cfg { memory with map := memory.map.storeLink i before.getLast? (fresh ++ after).head? }
      (Function.update workers tid worker') history' blocks
      (spliced chains memory.map.table i (before ++ (fresh ++ after))) contents' := by
  have hlink := link_storeLink memory.map i before (fresh ++ after)
  refine h.unlinks hmutex hunlinks ?_ hhistory ?_ ?_ (Nat.le_of_eq hlink.tableCount.symm)
    (h.heap.splice hsplice) (h.life.splice h.shared h.heap hsplice hfresh hunlinks) hthread hplace
  · intro object heq
    cases unlinked with
    | none => cases heq
    | some node =>
        obtain rfl := Option.some.inj heq
        exact h.life.live memory.map.table i node (by simp [hsplice.chain])
  · intro table j node hmem
    rcases hsplice.mem_new hmem with hin | hout
    · exact .inl hin
    · exact .inr (by simpa using hout)
  · intro table hdeleted
    have hne : table ≠ memory.map.table := by
      rintro rfl
      rw [h.life.current] at hdeleted
      cases hdeleted
    exact ⟨hlink.size table, Function.update_of_ne hne ..⟩

end Assembly

end HotPath.Concurrency.MapSteps
