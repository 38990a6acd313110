import HotPath.StoreBuffer.RingMemory

/-!
# The ring behind store buffers

`SpscRingBuffer` on an x86 processor. A `std::memory_order_seq_cst` store is a locked instruction.
Every other store, and the copy of an item into its slot, goes to the store buffer of the thread
one word at a time. Draining the oldest store of a buffer is an event of its own.

`buffered_ring_fifo` says that plain stores are enough. Items arrive whole and in order, although
a popped item's removal and a pushed item's index may be in a buffer for any time.
-/

namespace HotPath.StoreBuffer.Tso

open HotPath.Foundation

/-- Where the producer is. -/
inductive ProducerPc (words : Nat) where
  | idle
  | loadWrite (order : Order) (item : Item words)
  | loadRead (order : Order) (item : Item words) (w : UInt64)
  | writeSlot (order : Order) (item : Item words) (w : UInt64) (count : Nat)
  | returned (result : Bool)

/-- Where the consumer is. `out` is the destination, whose first `count` words are copied. -/
inductive ConsumerPc (words : Nat) where
  | idle
  | loadRead (order : Order) (out : Item words)
  | loadWrite (order : Order) (out : Item words) (r : UInt64)
  | readSlot (order : Order) (out : Item words) (r : UInt64) (count : Nat)
  | returned (result : Option (Item words))

/-- Memory with the store buffers, and the two threads. -/
structure State (words : Nat) where
  memory : Buffered Party (Address words) UInt64
  producer : ProducerPc words := .idle
  consumer : ConsumerPc words := .idle

/-- A call of one of the variants, the next access, or a store that reaches memory. -/
inductive Event (words : Nat) where
  | tryPush (order : Order) (item : Item words)
  | pushAccess
  | tryPop (order : Order) (out : Item words)
  | popAccess
  | drain (party : Party)

variable {words : Nat}

/-- The next access of `TryPush`. -/
def pushAccess (capacity : Capacity) (state : State words) : Option (State words) :=
  match state.producer with
  | .loadWrite order item => some { state with
      producer := .loadRead order item (state.memory.load .producer .writeIdx) }
  | .loadRead order item w =>
      if w - state.memory.load .producer .readIdx ≥ capacity.value then
        some { state with producer := .returned false }
      else some { state with producer := .writeSlot order item w 0 }
  | .writeSlot order item w count =>
      if h : count < words then
        some { state with
          memory := state.memory.store .producer (.slot (slotOf capacity w) ⟨count, h⟩)
            (item ⟨count, h⟩)
          producer := .writeSlot order item w (count + 1) }
      else
        (storeIndex order state.memory .producer .writeIdx (w + 1)).map fun memory =>
          { state with memory := memory, producer := .returned true }
  | _ => none

/-- The next access of `TryPop`. -/
def popAccess (capacity : Capacity) (state : State words) : Option (State words) :=
  match state.consumer with
  | .loadRead order out => some { state with
      consumer := .loadWrite order out (state.memory.load .consumer .readIdx) }
  | .loadWrite order out r =>
      if r = state.memory.load .consumer .writeIdx then
        some { state with consumer := .returned none }
      else some { state with consumer := .readSlot order out r 0 }
  | .readSlot order out r count =>
      if h : count < words then
        let value := state.memory.load .consumer (.slot (slotOf capacity r) ⟨count, h⟩)
        let out := Function.update out ⟨count, h⟩ value
        some { state with consumer := .readSlot order out r (count + 1) }
      else
        (storeIndex order state.memory .consumer .readIdx (r + 1)).map fun memory =>
          { state with memory := memory, consumer := .returned (some out) }
  | _ => none

/-- One step. -/
def step (capacity : Capacity) (state : State words) : Event words → Option (State words)
  | .tryPush order item =>
      match state.producer with
      | .idle | .returned _ => some { state with producer := .loadWrite order item }
      | _ => none
  | .pushAccess => pushAccess capacity state
  | .tryPop order out =>
      match state.consumer with
      | .idle | .returned _ => some { state with consumer := .loadRead order out }
      | _ => none
  | .popAccess => popAccess capacity state
  | .drain party => (state.memory.drain party).map fun memory => { state with memory := memory }

/-- The ring behind store buffers as a transition system. -/
def tsoRing (capacity : Capacity) (slots : UInt64 → Item words) :
    System (State words) (Event words) where
  init state := state = { memory := ⟨initial slots, fun _ => []⟩ }
  step := step capacity

/-! ## What is remembered of a run -/

/-- The items whose push returned `true` and the popped items, each in program order. The flags
say that the ring was full, or empty, as the other side's index in memory shows it, at some
instant of the last call. -/
structure History (words : Nat) where
  pushed : List (Item words) := []
  popped : List (Item words) := []
  sawFull : Bool := false
  sawEmpty : Bool := false

/-- The read index in memory is one lap behind the pushed items. -/
def full (capacity : Capacity) (state : State words) (history : History words) : Bool :=
  UInt64.ofNat history.pushed.length - state.memory.memory .readIdx == capacity.value

/-- The write index in memory is the number of popped items. -/
def empty (state : State words) (history : History words) : Bool :=
  state.memory.memory .writeIdx == UInt64.ofNat history.popped.length

/-- The producer is inside `TryPush`. -/
def ProducerPc.calling : ProducerPc words → Bool
  | .idle | .returned _ => false
  | _ => true

/-- The consumer is inside `TryPop`. -/
def ConsumerPc.calling : ConsumerPc words → Bool
  | .idle | .returned _ => false
  | _ => true

/-- The items after a step. -/
def recordItems (state next : State words) (event : Event words) (history : History words) :
    History words :=
  match event with
  | .pushAccess =>
      match state.producer, next.producer with
      | .writeSlot _ item _ _, .returned true =>
          { history with pushed := history.pushed ++ [item] }
      | _, _ => history
  | .popAccess =>
      match next.consumer with
      | .returned (some out) => { history with popped := history.popped ++ [out] }
      | _ => history
  | _ => history

/-- The history of a run. -/
def recorder (capacity : Capacity) : Recorder (State words) (Event words) (History words) where
  start _ := {}
  observe state event next history :=
    { recordItems state next event history with
      sawFull :=
        match event with
        | .tryPush _ _ => full capacity state history
        | _ => history.sawFull || state.producer.calling && full capacity state history
      sawEmpty :=
        match event with
        | .tryPop _ _ => empty state history
        | _ => history.sawEmpty || state.consumer.calling && empty state history }

/-- The ring is a bounded queue. The popped items are the first pushed items, whole and in order.
At most `Capacity` items are pending. While the consumer copies a slot, no store to it is in the
producer's buffer. A push fails only if a lap of pushed items was not removed in memory at some
instant of the call, a pop only if no item was published. Once the buffers have drained, the
indices in memory are the numbers of items and the slots hold the pending ones. -/
structure FifoAt (capacity : Capacity) (pair : State words × History words) : Prop where
  order : pair.2.popped <+: pair.2.pushed
  bounded : pair.2.pushed.length - pair.2.popped.length ≤ capacity.value.toNat
  noOverlap : ∀ order out r count, pair.1.consumer = .readSlot order out r count →
    ∀ store ∈ pair.1.memory.buffers .producer, ∀ word, store.1 ≠ .slot (slotOf capacity r) word
  full : pair.1.producer = .returned false → pair.2.sawFull = true
  empty : pair.1.consumer = .returned none → pair.2.sawEmpty = true
  settled : pair.1.memory.flushed .producer = true → pair.1.memory.flushed .consumer = true →
    pair.1.memory.memory .writeIdx = UInt64.ofNat pair.2.pushed.length ∧
    pair.1.memory.memory .readIdx = UInt64.ofNat pair.2.popped.length ∧
    ∀ position item, pair.2.popped.length ≤ position → pair.2.pushed[position]? = some item →
      ∀ word, pair.1.memory.memory (.slot (slotOf capacity (UInt64.ofNat position)) word) =
        item word

/-- In every reachable state the ring behind store buffers is a bounded queue. -/
def BufferedFifo (capacity : Capacity) (slots : UInt64 → Item words) : Prop :=
  ∀ pair, ((tsoRing capacity slots).withHistory (recorder capacity)).Reachable
    (fun _ _ => True) pair → FifoAt capacity pair

/-! ## The invariant -/

/-- The words of the next item that the producer has stored. -/
def pending (capacity : Capacity) (position : Nat) :
    ProducerPc words → List (Address words × UInt64)
  | .writeSlot _ item _ count => (slotStores capacity position item).take count
  | _ => []

/-- What the producer knows. `removed` counts the stores of the read index in memory. -/
def ProducerInv (capacity : Capacity) (removed : Nat) (history : History words) :
    ProducerPc words → Prop
  | .loadRead _ _ w => w = UInt64.ofNat history.pushed.length
  | .writeSlot _ _ w count => w = UInt64.ofNat history.pushed.length ∧
      history.pushed.length < removed + capacity.value.toNat ∧ count ≤ words
  | .returned false => history.sawFull = true
  | _ => True

/-- What the consumer knows. `visible` counts the stores of the write index in memory. -/
def ConsumerInv (visible : Nat) (history : History words) : ConsumerPc words → Prop
  | .loadWrite _ _ r => r = UInt64.ofNat history.popped.length
  | .readSlot _ out r count => r = UInt64.ofNat history.popped.length ∧
      history.popped.length < visible ∧ count ≤ words ∧
      ∃ item, history.pushed[history.popped.length]? = some item ∧
        ∀ word : Fin words, word < count → out word = item word
  | .returned none => history.sawEmpty = true
  | _ => True

/-- The invariant. `seen` are the stores that have reached memory. -/
structure RingInv (capacity : Capacity) (slots : UInt64 → Item words)
    (seen : Party → List (Address words × UInt64)) (state : State words)
    (history : History words) : Prop where
  memory : RingMemory capacity slots seen state.memory history.pushed
    (pending capacity history.pushed.length state.producer) history.popped.length
  order : history.popped <+: history.pushed
  producer : ProducerInv capacity (seen .consumer).length history state.producer
  consumer : ConsumerInv (published (seen .producer)) history state.consumer

section Invariant

variable {capacity : Capacity} {slots : UInt64 → Item words}
  {seen : Party → List (Address words × UInt64)} {state next : State words}
  {history : History words}

/-- The queue is what the results about it need. -/
theorem RingInv.fifo (h : RingInv capacity slots seen state history) :
    FifoAt capacity (state, history) := by
  have hremoved := h.memory.removed_le
  have hlength := h.order.length_le
  refine ⟨h.order, ?_, fun order out r count hpc store hmem word heq => ?_, fun hpc => ?_,
    fun hpc => ?_, fun hproducer hconsumer => ?_⟩
  · have hbounded := h.memory.bounded
    show history.pushed.length - history.popped.length ≤ _
    omega
  · have hconsumer := h.consumer
    rw [show state.consumer = _ from hpc] at hconsumer
    obtain ⟨rfl, hvisible, -⟩ := hconsumer
    exact h.memory.later_ne_slot hremoved hvisible hmem word heq
  · have hproducer := h.producer
    rw [show state.producer = _ from hpc] at hproducer
    exact hproducer
  · have hconsumer := h.consumer
    rw [show state.consumer = _ from hpc] at hconsumer
    exact hconsumer
  · have hpushed := h.memory.published_of_flushed hproducer
    have hpopped := h.memory.removed_of_flushed hconsumer
    refine ⟨hpushed ▸ h.memory.memory_writeIdx, hpopped ▸ h.memory.memory_readIdx,
      fun position item hle hitem => ?_⟩
    refine h.memory.memory_slot (hpopped ▸ hle) hitem ?_
    rw [hpushed]
    exact (List.getElem?_eq_some_iff.mp hitem).1

/-! ## Steps -/

/-- The producer's facts outlive the steps of the consumer and the drains. -/
theorem ProducerInv.frame {removed removed' : Nat} {history' : History words}
    {pc : ProducerPc words} (h : ProducerInv capacity removed history pc)
    (hremoved : removed ≤ removed') (hpushed : history'.pushed = history.pushed)
    (hfull : history.sawFull = true → history'.sawFull = true) :
    ProducerInv capacity removed' history' pc := by
  cases pc with
  | loadRead order item w =>
      show w = UInt64.ofNat history'.pushed.length
      rw [hpushed]
      exact h
  | writeSlot order item w count =>
      obtain ⟨hw, hroom, hcount⟩ := h
      refine ⟨hpushed ▸ hw, ?_, hcount⟩
      rw [hpushed]
      omega
  | returned result =>
      cases result with
      | false => exact hfull h
      | true => trivial
  | idle | loadWrite => trivial

/-- The consumer's facts outlive the steps of the producer and the drains. -/
theorem ConsumerInv.frame {visible visible' : Nat} {history' : History words}
    {pc : ConsumerPc words} (h : ConsumerInv visible history pc) (hvisible : visible ≤ visible')
    (hpopped : history'.popped = history.popped) (hpushed : history.pushed <+: history'.pushed)
    (hempty : history.sawEmpty = true → history'.sawEmpty = true) :
    ConsumerInv visible' history' pc := by
  cases pc with
  | loadWrite order out r =>
      show r = UInt64.ofNat history'.popped.length
      rw [hpopped]
      exact h
  | readSlot order out r count =>
      obtain ⟨hr, hlt, hcount, item, hitem, hout⟩ := h
      obtain ⟨rest, hrest⟩ := hpushed
      refine ⟨hpopped ▸ hr, ?_, hcount, item, ?_, hout⟩
      · rw [hpopped]
        omega
      · rw [← hrest, hpopped, List.getElem?_append_left (List.getElem?_eq_some_iff.mp hitem).1]
        exact hitem
  | returned result =>
      cases result with
      | none => exact hempty h
      | some out => trivial
  | idle | loadRead => trivial

/-- The producer moves without storing. -/
theorem RingInv.producer_moves (h : RingInv capacity slots seen state history)
    {history' : History words} {pc' : ProducerPc words} (hpushed : history'.pushed = history.pushed)
    (hpopped : history'.popped = history.popped)
    (hempty : history.sawEmpty = true → history'.sawEmpty = true)
    (hpending : pending capacity history.pushed.length pc' =
      pending capacity history.pushed.length state.producer)
    (hproducer : ProducerInv capacity (seen .consumer).length history' pc') :
    RingInv capacity slots seen { state with producer := pc' } history' where
  memory := by
    rw [hpushed, hpopped]
    show RingMemory capacity slots seen state.memory history.pushed
      (pending capacity history.pushed.length pc') history.popped.length
    rw [hpending]
    exact h.memory
  order := hpushed ▸ hpopped ▸ h.order
  producer := hproducer
  consumer := h.consumer.frame (Nat.le_refl _) hpopped (hpushed ▸ List.prefix_refl _) hempty

/-- The consumer moves without storing. -/
theorem RingInv.consumer_moves (h : RingInv capacity slots seen state history)
    {history' : History words} {pc' : ConsumerPc words} (hpushed : history'.pushed = history.pushed)
    (hpopped : history'.popped = history.popped)
    (hfull : history.sawFull = true → history'.sawFull = true)
    (hconsumer : ConsumerInv (published (seen .producer)) history' pc') :
    RingInv capacity slots seen { state with consumer := pc' } history' where
  memory := hpushed ▸ hpopped ▸ h.memory
  order := hpushed ▸ hpopped ▸ h.order
  producer := h.producer.frame (Nat.le_refl _) hpushed hfull
  consumer := hconsumer

/-- A flag that is set stays set. -/
theorem or_of_flag {flag more : Bool} (h : flag = true) : (flag || more) = true := by
  simp [h]

/-- A store reaches memory. -/
theorem RingInv.drain (h : RingInv capacity slots seen state history) {party : Party}
    {memory : Buffered Party (Address words) UInt64} {history' : History words}
    (hdrain : state.memory.drain party = some memory) (hpushed : history'.pushed = history.pushed)
    (hpopped : history'.popped = history.popped)
    (hfull : history.sawFull = true → history'.sawFull = true)
    (hempty : history.sawEmpty = true → history'.sawEmpty = true) :
    ∃ seen', RingInv capacity slots seen' { state with memory := memory } history' := by
  obtain ⟨seen', hgrows, hmemory⟩ := h.memory.drain hdrain
  exact ⟨seen', hpushed ▸ hpopped ▸ hmemory, hpushed ▸ hpopped ▸ h.order,
    h.producer.frame hgrows.removed hpushed hfull,
    h.consumer.frame hgrows.published hpopped (hpushed ▸ List.prefix_refl _) hempty⟩

/-- An access of `TryPush` keeps the invariant. -/
theorem RingInv.push_access (h : RingInv capacity slots seen state history)
    (hstep : pushAccess capacity state = some next) : ∃ seen',
    RingInv capacity slots seen' next
      ((recorder capacity).observe state .pushAccess next history) := by
  have hproducer := h.producer
  have hmemory := h.memory
  unfold pushAccess at hstep
  simp only [recorder, recordItems]
  cases hpc : state.producer with
  | idle | returned => simp [hpc] at hstep
  | loadWrite order item =>
      simp only [hpc, Option.some.injEq] at hstep hmemory
      subst hstep
      exact ⟨seen, h.producer_moves rfl rfl or_of_flag (by rw [hpc]; rfl) hmemory.load_writeIdx⟩
  | loadRead order item w =>
      simp only [hpc] at hstep hproducer
      obtain rfl : w = UInt64.ofNat history.pushed.length := hproducer
      have hbounded := hmemory.bounded
      have hdistance : (UInt64.ofNat history.pushed.length -
          UInt64.ofNat (seen .consumer).length).toNat =
          history.pushed.length - (seen .consumer).length :=
        toNat_ofNat_sub (Nat.le_trans hmemory.removed_le h.order.length_le) hbounded
      rw [hmemory.load_other (by simp), hmemory.memory_readIdx] at hstep
      simp only [ge_iff_le, UInt64.le_iff_toNat_le, hdistance] at hstep
      split at hstep
      · next hlap =>
          obtain rfl := Option.some.inj hstep
          refine ⟨seen, h.producer_moves rfl rfl or_of_flag (by rw [hpc]; rfl) ?_⟩
          have hfull : full capacity state history = true := by
            rw [full, hmemory.memory_readIdx, beq_iff_eq, ← UInt64.toNat_inj, hdistance]
            omega
          simp [ProducerInv, ProducerPc.calling, hfull]
      · next hroom =>
          obtain rfl := Option.some.inj hstep
          refine ⟨seen, h.producer_moves rfl rfl or_of_flag (by rw [hpc]; rfl) ⟨rfl, ?_, ?_⟩⟩
          · show history.pushed.length < _
            omega
          · exact Nat.zero_le _
  | writeSlot order item w count =>
      simp only [hpc] at hstep hproducer hmemory
      obtain ⟨rfl, hroom, hcount⟩ := hproducer
      split at hstep
      · next hlt =>
          -- One more word of the item.
          obtain rfl := Option.some.inj hstep
          exact ⟨seen, RingMemory.store_word item hlt hmemory hroom, h.order, ⟨rfl, hroom, hlt⟩,
            h.consumer.frame (Nat.le_refl _) rfl (List.prefix_refl _) or_of_flag⟩
      · next hge =>
          -- The index makes the item visible, at once or when it drains.
          obtain rfl : count = words := Nat.le_antisymm hcount (Nat.le_of_not_lt hge)
          obtain ⟨memory, hstore, rfl⟩ := Option.map_eq_some_iff.mp hstep
          rw [ofNat_succ] at hstore
          simp only [pending, slotStores_take_words] at hmemory
          obtain ⟨seen', hgrows, hmemory'⟩ := RingMemory.store_writeIdx item hmemory hroom hstore
          exact ⟨seen', hmemory', h.order.trans (List.prefix_append _ _), trivial,
            h.consumer.frame hgrows.published rfl (List.prefix_append _ _) or_of_flag⟩

/-- An access of `TryPop` keeps the invariant. -/
theorem RingInv.pop_access (h : RingInv capacity slots seen state history)
    (hstep : popAccess capacity state = some next) : ∃ seen',
    RingInv capacity slots seen' next
      ((recorder capacity).observe state .popAccess next history) := by
  have hconsumer := h.consumer
  unfold popAccess at hstep
  simp only [recorder, recordItems]
  cases hpc : state.consumer with
  | idle | returned => simp [hpc] at hstep
  | loadRead order out =>
      simp only [hpc, Option.some.injEq] at hstep
      subst hstep
      exact ⟨seen, h.consumer_moves rfl rfl or_of_flag h.memory.load_readIdx⟩
  | loadWrite order out r =>
      simp only [hpc] at hstep hconsumer
      obtain rfl : r = UInt64.ofNat history.popped.length := hconsumer
      rw [h.memory.load_other (by simp), h.memory.memory_writeIdx] at hstep
      split at hstep
      · next hsame =>
          obtain rfl := Option.some.inj hstep
          refine ⟨seen, h.consumer_moves rfl rfl or_of_flag ?_⟩
          have hempty : empty state history = true := by
            rw [empty, h.memory.memory_writeIdx, beq_iff_eq]
            exact hsame.symm
          simp [ConsumerInv, ConsumerPc.calling, hempty]
      · next hdiffer =>
          obtain rfl := Option.some.inj hstep
          have hlt : history.popped.length < published (seen .producer) := by
            refine Nat.lt_of_le_of_ne h.memory.visible fun heq => hdiffer ?_
            rw [heq]
          have hpushed := Nat.lt_of_lt_of_le hlt h.memory.published_le
          refine ⟨seen, h.consumer_moves rfl rfl or_of_flag ⟨rfl, hlt, Nat.zero_le _,
            history.pushed[history.popped.length], List.getElem?_eq_getElem hpushed,
            fun word hword => absurd hword (Nat.not_lt_zero _)⟩⟩
  | readSlot order out r count =>
      simp only [hpc] at hstep hconsumer
      obtain ⟨rfl, hvisible, hcount, item, hitem, hout⟩ := hconsumer
      split at hstep
      · next hlt =>
          obtain rfl := Option.some.inj hstep
          refine ⟨seen, h.consumer_moves rfl rfl or_of_flag ⟨rfl, hvisible, hlt, item, hitem,
            fun word hword => ?_⟩⟩
          rw [h.memory.load_other (by simp),
            h.memory.memory_slot h.memory.removed_le hitem hvisible]
          by_cases heq : word = ⟨count, hlt⟩
          · rw [heq, Function.update_self]
          · rw [Function.update_of_ne heq]
            refine hout word ?_
            have hne : word.val ≠ count := fun hval => heq (Fin.ext hval)
            omega
      · next hge =>
          obtain ⟨memory, hstore, rfl⟩ := Option.map_eq_some_iff.mp hstep
          rw [ofNat_succ] at hstore
          obtain ⟨seen', hgrows, hmemory⟩ := h.memory.store_readIdx hvisible hstore
          obtain rfl : out = item := funext fun word => hout word (by omega)
          refine ⟨seen', ?_, prefix_concat_of_getElem? h.order hitem,
            h.producer.frame hgrows.removed rfl or_of_flag, trivial⟩
          rw [List.length_append]
          exact hmemory

/-- Every step keeps the invariant. -/
theorem RingInv.step (h : RingInv capacity slots seen state history) {event : Event words}
    (hstep : Tso.step capacity state event = some next) : ∃ seen',
    RingInv capacity slots seen' next
      ((recorder capacity).observe state event next history) := by
  cases event with
  | pushAccess => exact h.push_access hstep
  | popAccess => exact h.pop_access hstep
  | drain party =>
      obtain ⟨memory, hdrain, rfl⟩ := Option.map_eq_some_iff.mp hstep
      exact h.drain hdrain rfl rfl or_of_flag or_of_flag
  | tryPush order item =>
      simp only [Tso.step] at hstep
      split at hstep
      · next hpc =>
          obtain rfl := Option.some.inj hstep
          exact ⟨seen, h.producer_moves rfl rfl or_of_flag (by rw [hpc]; rfl) trivial⟩
      · next hpc =>
          obtain rfl := Option.some.inj hstep
          exact ⟨seen, h.producer_moves rfl rfl or_of_flag (by rw [hpc]; rfl) trivial⟩
      · cases hstep
  | tryPop order out =>
      simp only [Tso.step] at hstep
      split at hstep
      · obtain rfl := Option.some.inj hstep
        exact ⟨seen, h.consumer_moves rfl rfl or_of_flag trivial⟩
      · obtain rfl := Option.some.inj hstep
        exact ⟨seen, h.consumer_moves rfl rfl or_of_flag trivial⟩
      · cases hstep

end Invariant

/-- Behind store buffers the ring is a bounded queue of whole items, for every capacity that is a
power of two, every size of the items and any mix of the variants. -/
theorem buffered_ring_fifo {words : Nat} (capacity : Capacity) (slots : UInt64 → Item words) :
    BufferedFifo capacity slots := by
  intro pair hreach
  have hinv : ∃ seen, RingInv capacity slots seen pair.1 pair.2 := by
    refine hreach.invariant (fun pair => ∃ seen, RingInv capacity slots seen pair.1 pair.2) ?_ ?_
    · intro start ⟨hstart, hhistory⟩
      obtain ⟨state, history⟩ := start
      obtain rfl : state = _ := hstart
      obtain rfl : history = {} := hhistory
      exact ⟨fun _ => [], .start capacity slots, List.prefix_refl _, trivial, trivial⟩
    · intro before event after ⟨seen, h⟩ _ hstep
      obtain ⟨hnext, hhistory⟩ := System.withHistory_step.mp hstep
      rw [hhistory]
      exact h.step hnext
  obtain ⟨seen, h⟩ := hinv
  exact h.fifo

end HotPath.StoreBuffer.Tso
