import HotPath.StoreBuffer.RingStores

/-!
# The memory of a ring behind store buffers

`RingMemory` says what the memory and the store buffers hold when some items are pushed, some
words of the next one are stored and some number of items is removed. It has one lemma for each
load that a producer or a consumer makes and one for each store, and nothing in it depends on how
the two threads are written.

A `std::memory_order_seq_cst` store is a locked instruction. Every other store goes to the store
buffer of its thread.
-/

namespace HotPath.StoreBuffer.Tso

open HotPath.Foundation

variable {words : Nat}

/-- The store of an index. -/
def storeIndex (order : Order) (memory : Buffered Party (Address words) UInt64) (party : Party)
    (address : Address words) (value : UInt64) :
    Option (Buffered Party (Address words) UInt64) :=
  match order with
  | .seqCst => memory.exchange party address value
  | .acquireRelease => some (memory.store party address value)

/-- More stores have reached memory. -/
def Grows (seen seen' : Party → List (Address words × UInt64)) : Prop :=
  ∀ party, seen party <+: seen' party

/-- The words of a ring. `pushed` are the items whose index is stored, `part` the words of the
next item that are stored, and `popped` counts the stores of the read index. `seen` are the stores
that have reached memory. -/
structure RingMemory (capacity : Capacity) (slots : UInt64 → Item words)
    (seen : Party → List (Address words × UInt64))
    (memory : Buffered Party (Address words) UInt64) (pushed : List (Item words))
    (part : List (Address words × UInt64)) (popped : Nat) : Prop where
  traced : Traced owner (initial slots) memory seen
  stored : seen .producer ++ memory.buffers .producer = ringStores capacity 0 pushed ++ part
  consumed : seen .consumer ++ memory.buffers .consumer = readStores words popped
  within : Within capacity pushed.length ((seen .consumer).length + capacity.value.toNat) part
  unpublished : ∀ store ∈ part, store.1 ≠ .writeIdx
  visible : popped ≤ published (seen .producer)
  bounded : pushed.length ≤ (seen .consumer).length + capacity.value.toNat

section Grows

variable {seen seen' : Party → List (Address words × UInt64)}

theorem Grows.refl (seen : Party → List (Address words × UInt64)) : Grows seen seen :=
  fun _ => List.prefix_refl _

theorem Grows.published (h : Grows seen seen') :
    published (seen .producer) ≤ published (seen' .producer) :=
  (h .producer).sublist.countP_le

theorem Grows.removed (h : Grows seen seen') :
    (seen .consumer).length ≤ (seen' .consumer).length :=
  (h .consumer).length_le

end Grows

/-- What the store of an index adds to the stores in program order. -/
theorem storeIndex_traced {memory memory' : Buffered Party (Address words) UInt64}
    {start : Address words → UInt64} {seen : Party → List (Address words × UInt64)}
    {order : Order} {party : Party} {address : Address words} {value : UInt64}
    (h : Traced owner start memory seen)
    (hstore : storeIndex order memory party address value = some memory')
    (howner : owner address = party) :
    ∃ seen', Traced owner start memory' seen' ∧ Grows seen seen' ∧
      seen' party ++ memory'.buffers party =
        seen party ++ memory.buffers party ++ [(address, value)] ∧
      ∀ other, other ≠ party → seen' other = seen other ∧
        memory'.buffers other = memory.buffers other := by
  cases order with
  | seqCst =>
      obtain ⟨hempty, hbuffers, htraced⟩ := h.exchange howner hstore
      refine ⟨_, htraced, fun other => Traced.prefix_reach _ _ _ _, ?_,
        fun other hne => ⟨Function.update_of_ne hne .., ?_⟩⟩
      · rw [Traced.reach, Function.update_self, hbuffers, hempty, List.append_nil, List.append_nil]
      · rw [hbuffers]
  | acquireRelease =>
      obtain rfl := Option.some.inj hstore
      refine ⟨seen, h.store howner, Grows.refl _, ?_, fun other hne => ⟨rfl, ?_⟩⟩
      · rw [Buffered.buffers_store_self, List.append_assoc]
      · exact Buffered.buffers_store_of_ne hne

namespace RingMemory

variable {capacity : Capacity} {slots : UInt64 → Item words}
  {seen : Party → List (Address words × UInt64)}
  {memory memory' : Buffered Party (Address words) UInt64} {pushed : List (Item words)}
  {part : List (Address words × UInt64)} {popped : Nat}

theorem start (capacity : Capacity) (slots : UInt64 → Item words) :
    RingMemory capacity slots (fun _ => []) ⟨initial slots, fun _ => []⟩ [] [] 0 where
  traced := .start
  stored := rfl
  consumed := rfl
  within := nofun
  unpublished := nofun
  visible := Nat.le_refl _
  bounded := Nat.zero_le _

/-! ## What the words are -/

theorem removed_le (h : RingMemory capacity slots seen memory pushed part popped) :
    (seen .consumer).length ≤ popped :=
  (readStores_cut h.consumed).1

theorem published_le (h : RingMemory capacity slots seen memory pushed part popped) :
    published (seen .producer) ≤ pushed.length :=
  Tso.published_le h.stored h.within h.unpublished h.bounded

/-- The write index in memory. -/
theorem memory_writeIdx (h : RingMemory capacity slots seen memory pushed part popped) :
    memory.memory .writeIdx = UInt64.ofNat (published (seen .producer)) := by
  rw [h.traced.memory]
  exact newest_seen_writeIdx h.stored h.within h.unpublished h.bounded

/-- The read index in memory. -/
theorem memory_readIdx (h : RingMemory capacity slots seen memory pushed part popped) :
    memory.memory .readIdx = UInt64.ofNat (seen .consumer).length := by
  rw [h.traced.memory]
  exact (readStores_cut h.consumed).2

/-- The slot of a published item that is not removed in memory. -/
theorem memory_slot (h : RingMemory capacity slots seen memory pushed part popped)
    {position : Nat} {item : Item words} (hle : (seen .consumer).length ≤ position)
    (hitem : pushed[position]? = some item) (hpublished : position < published (seen .producer))
    (word : Fin words) :
    memory.memory (.slot (slotOf capacity (UInt64.ofNat position)) word) = item word := by
  rw [h.traced.memory]
  exact newest_seen_slot h.stored h.within h.unpublished h.bounded hitem hpublished (by omega)
    word _

/-- The producer sees its own index. -/
theorem load_writeIdx (h : RingMemory capacity slots seen memory pushed [] popped) :
    memory.load .producer .writeIdx = UInt64.ofNat pushed.length := by
  have hindex := newest_ringStores_writeIdx capacity 0 pushed
  rw [Nat.zero_add] at hindex
  rw [h.traced.load_own owner_writeIdx, h.stored, List.append_nil]
  exact hindex

/-- The consumer sees its own index. -/
theorem load_readIdx (h : RingMemory capacity slots seen memory pushed part popped) :
    memory.load .consumer .readIdx = UInt64.ofNat popped := by
  have hall := (readStores_cut (List.append_nil (readStores words popped))).2
  rw [h.traced.load_own owner_readIdx, h.consumed]
  rw [readStores, List.length_map, List.length_range] at hall
  exact hall

/-- Each side loads the words of the other from memory. -/
theorem load_other (h : RingMemory capacity slots seen memory pushed part popped) {party : Party}
    {address : Address words} (hne : owner address ≠ party) :
    memory.load party address = memory.memory address := by
  rw [h.traced.load_other hne, h.traced.memory]

/-- What the producer has not drained is not for the slot of a published item that is not
removed. -/
theorem later_ne_slot (h : RingMemory capacity slots seen memory pushed part popped)
    {position : Nat} (hle : (seen .consumer).length ≤ position)
    (hpublished : position < published (seen .producer)) {store : Address words × UInt64}
    (hmem : store ∈ memory.buffers .producer) (word : Fin words) :
    store.1 ≠ .slot (slotOf capacity (UInt64.ofNat position)) word := by
  have hlater := within_later h.stored h.within h.unpublished h.bounded
  exact hlater.ne_slot hpublished (Nat.add_le_add_right hle _) hmem word

/-- Once the producer's buffer has drained, all its items are published. -/
theorem published_of_flushed (h : RingMemory capacity slots seen memory pushed part popped)
    (hflushed : memory.flushed .producer = true) :
    published (seen .producer) = pushed.length := by
  have hstored := h.stored
  rw [Buffered.flushed_iff.mp hflushed, List.append_nil] at hstored
  rw [hstored, published_append, published_ringStores, published_eq_zero h.unpublished,
    Nat.add_zero]

/-- Once the consumer's buffer has drained, all its items are removed. -/
theorem removed_of_flushed (h : RingMemory capacity slots seen memory pushed part popped)
    (hflushed : memory.flushed .consumer = true) : (seen .consumer).length = popped := by
  have hconsumed := h.consumed
  rw [Buffered.flushed_iff.mp hflushed, List.append_nil] at hconsumed
  rw [hconsumed, readStores, List.length_map, List.length_range]

/-! ## Stores -/

/-- A store reaches memory. -/
theorem drain (h : RingMemory capacity slots seen memory pushed part popped) {party : Party}
    (hdrain : memory.drain party = some memory') :
    ∃ seen', Grows seen seen' ∧
      RingMemory capacity slots seen' memory' pushed part popped := by
  obtain ⟨store, -, htraced, hsame⟩ := h.traced.drain hdrain
  have hgrows : Grows seen (Traced.reach seen party store) :=
    fun other => Traced.prefix_reach seen party other store
  have hremoved := hgrows.removed
  have hbounded := h.bounded
  exact ⟨_, hgrows, htraced, (hsame .producer).trans h.stored, (hsame .consumer).trans h.consumed,
    h.within.mono (Nat.le_refl _) (by omega), h.unpublished,
    Nat.le_trans h.visible hgrows.published, by omega⟩

/-- The producer stores one more word of an item, when there is room for the item. -/
theorem store_word (item : Item words) {count : Nat} (hcount : count < words)
    (h : RingMemory capacity slots seen memory pushed
      ((slotStores capacity pushed.length item).take count) popped)
    (hroom : pushed.length < (seen .consumer).length + capacity.value.toNat) :
    RingMemory capacity slots seen
      (memory.store .producer (.slot (slotOf capacity (UInt64.ofNat pushed.length)) ⟨count, hcount⟩)
        (item ⟨count, hcount⟩)) pushed
      ((slotStores capacity pushed.length item).take (count + 1)) popped where
  traced := h.traced.store rfl
  stored := by
    rw [Buffered.buffers_store_self, ← List.append_assoc, h.stored, List.append_assoc,
      ← slotStores_take_succ item hcount]
  consumed := by
    rw [Buffered.buffers_store_of_ne (by decide)]
    exact h.consumed
  within store hmem :=
    (within_slotStores pushed.length item).mono (Nat.le_refl _) hroom store
      (List.mem_of_mem_take hmem)
  unpublished store hmem := slotStores_ne_writeIdx (List.mem_of_mem_take hmem)
  visible := h.visible
  bounded := h.bounded

/-- The producer stores the index of an item whose words are all stored. -/
theorem store_writeIdx (item : Item words) {order : Order}
    (h : RingMemory capacity slots seen memory pushed (slotStores capacity pushed.length item)
      popped)
    (hroom : pushed.length < (seen .consumer).length + capacity.value.toNat)
    (hstore : storeIndex order memory .producer .writeIdx (UInt64.ofNat (pushed.length + 1)) =
      some memory') :
    ∃ seen', Grows seen seen' ∧
      RingMemory capacity slots seen' memory' (pushed ++ [item]) [] popped := by
  obtain ⟨seen', htraced, hgrows, hprogram, hothers⟩ := storeIndex_traced h.traced hstore rfl
  obtain ⟨hseen, hbuffer⟩ := hothers .consumer (by decide)
  refine ⟨seen', hgrows, htraced, ?_, ?_, nofun, nofun,
    Nat.le_trans h.visible hgrows.published, ?_⟩
  · rw [hprogram, h.stored, ringStores_concat, List.append_nil, List.append_assoc]
    rfl
  · rw [hseen, hbuffer]
    exact h.consumed
  · rw [hseen, List.length_append]
    exact hroom

/-- The consumer stores the index after a published item. -/
theorem store_readIdx {order : Order}
    (h : RingMemory capacity slots seen memory pushed part popped)
    (hpublished : popped < published (seen .producer))
    (hstore : storeIndex order memory .consumer .readIdx (UInt64.ofNat (popped + 1)) =
      some memory') :
    ∃ seen', Grows seen seen' ∧
      RingMemory capacity slots seen' memory' pushed part (popped + 1) := by
  obtain ⟨seen', htraced, hgrows, hprogram, hothers⟩ := storeIndex_traced h.traced hstore rfl
  obtain ⟨hseen, hbuffer⟩ := hothers .producer (by decide)
  have hremoved := hgrows.removed
  have hbounded := h.bounded
  refine ⟨seen', hgrows, htraced, ?_, ?_, h.within.mono (Nat.le_refl _) (by omega), h.unpublished,
    ?_, by omega⟩
  · rw [hseen, hbuffer]
    exact h.stored
  · rw [hprogram, h.consumed]
    simp [readStores, List.range_succ]
  · rw [hseen]
    exact hpublished

end RingMemory

end HotPath.StoreBuffer.Tso
