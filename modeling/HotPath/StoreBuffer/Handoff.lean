import HotPath.Foundation.Completion
import HotPath.StoreBuffer.RingMemory

/-!
# The producer-consumer handoff

`RunProducerConsumerHandoff` on an x86 processor. The producer fills a slot with two payload words
and stores the number of the message in the write index. The consumer adds the words up and stores
the number in the read index. Both wait by loading the other side's index again and again.

`handoff_correct` says that with either kind of index store the checksum is that of the messages,
and that the two threads finish.
-/

namespace HotPath.StoreBuffer.Tso

open HotPath.Foundation

/-- The template argument, the constants and what they satisfy. The loop counters do not wrap. -/
structure HandoffConfig where
  order : Order
  ringSize : Capacity
  messageCount : UInt64
  messageCount_lt : messageCount.toNat + 1 < 2 ^ 64

namespace Handoff

/-- Where the producer is, with the loop counter. -/
inductive Producer where
  | arrive
  | startBarrier
  | wait (i : UInt64)
  | payloadA (i : UInt64)
  | payloadB (i : UInt64)
  | publish (i : UInt64)
  | joined

/-- Where the consumer is, with the loop counter and the sum. -/
inductive Consumer where
  | arrive
  | startBarrier
  | wait (i sum : UInt64)
  | payloadA (i sum : UInt64)
  | payloadB (i sum payloadA : UInt64)
  | release (i sum : UInt64)
  | joined (checksum : UInt64)

/-- Memory with the store buffers, and the two threads. -/
structure State where
  memory : Buffered Party (Address 2) UInt64
  producer : Producer := .arrive
  consumer : Consumer := .arrive

/-- A step of a thread, or a store that reaches memory. -/
inductive Event where
  | produce
  | consume
  | drain (party : Party)

/-- The payload of a message. -/
def payload (i : UInt64) : Item 2 := fun word => if word = 0 then i * 3 else i ^^^ 0x5A5A5A5A

/-- The test of the producer's loop. -/
def Producer.loop (cfg : HandoffConfig) (i : UInt64) : Producer :=
  if i ≤ cfg.messageCount then .wait i else .joined

/-- The test of the consumer's loop. -/
def Consumer.loop (cfg : HandoffConfig) (i sum : UInt64) : Consumer :=
  if i ≤ cfg.messageCount then .wait i sum else .joined sum

/-- The next step of the producer. -/
def produce (cfg : HandoffConfig) (state : State) : Option State :=
  match state.producer with
  | .arrive => some { state with producer := .startBarrier }
  | .startBarrier =>
      match state.consumer with
      | .arrive => none
      | _ => some { state with producer := .loop cfg 1 }
  | .wait i =>
      if i - 1 - state.memory.load .producer .readIdx ≥ cfg.ringSize.value then some state
      else some { state with producer := .payloadA i }
  | .payloadA i => some { state with
      memory := state.memory.store .producer (.slot (slotOf cfg.ringSize (i - 1)) 0) (payload i 0)
      producer := .payloadB i }
  | .payloadB i => some { state with
      memory := state.memory.store .producer (.slot (slotOf cfg.ringSize (i - 1)) 1) (payload i 1)
      producer := .publish i }
  | .publish i =>
      (storeIndex cfg.order state.memory .producer .writeIdx i).map fun memory =>
        { state with memory := memory, producer := .loop cfg (i + 1) }
  | .joined => none

/-- The next step of the consumer. -/
def consume (cfg : HandoffConfig) (state : State) : Option State :=
  match state.consumer with
  | .arrive => some { state with consumer := .startBarrier }
  | .startBarrier =>
      match state.producer with
      | .arrive => none
      | _ => some { state with consumer := .loop cfg 1 0 }
  | .wait i sum =>
      if state.memory.load .consumer .writeIdx < i then some state
      else some { state with consumer := .payloadA i sum }
  | .payloadA i sum => some { state with
      consumer := .payloadB i sum
        (state.memory.load .consumer (.slot (slotOf cfg.ringSize (i - 1)) 0)) }
  | .payloadB i sum payloadA =>
      let payloadB := state.memory.load .consumer (.slot (slotOf cfg.ringSize (i - 1)) 1)
      some { state with consumer := .release i (sum + (payloadA ^^^ payloadB)) }
  | .release i sum =>
      (storeIndex cfg.order state.memory .consumer .readIdx i).map fun memory =>
        { state with memory := memory, consumer := .loop cfg (i + 1) sum }
  | .joined _ => none

/-- One step. -/
def step (cfg : HandoffConfig) (state : State) : Event → Option State
  | .produce => produce cfg state
  | .consume => consume cfg state
  | .drain party => (state.memory.drain party).map fun memory => { state with memory := memory }

/-- The handoff as a transition system. The ring begins with zeros. -/
def handoff (cfg : HandoffConfig) : System State Event where
  init state := state = { memory := ⟨initial fun _ _ => 0, fun _ => []⟩ }
  step := step cfg

/-- The sum over the first messages. -/
def checksum : Nat → UInt64
  | 0 => 0
  | count + 1 =>
      let i := UInt64.ofNat (count + 1)
      checksum count + (i * 3 ^^^ (i ^^^ 0x5A5A5A5A))

/-- Both threads have returned. -/
def finished (state : State) : Prop :=
  state.producer = .joined ∧ ∃ sum, state.consumer = .joined sum

/-- The checksum is that of the messages in every run, and every run completes. -/
def Correct (cfg : HandoffConfig) : Prop :=
  (∀ state, (handoff cfg).Reachable (fun _ _ => True) state →
    ∀ sum, state.consumer = .joined sum → sum = checksum cfg.messageCount.toNat) ∧
  (handoff cfg).Completes (fun _ _ => True) finished

/-! ## The invariant -/

/-- The first messages. -/
def messages (count : Nat) : List (Item 2) :=
  (List.range count).map fun position => payload (UInt64.ofNat (position + 1))

/-- What the producer has stored of the next message. -/
def Producer.part (cfg : HandoffConfig) (produced : Nat) : Producer → List (Address 2 × UInt64)
  | .payloadB i => (slotStores cfg.ringSize produced (payload i)).take 1
  | .publish i => slotStores cfg.ringSize produced (payload i)
  | _ => []

/-- Where the producer is after some messages. `removed` counts the stores of the read index in
memory. -/
def Producer.At (cfg : HandoffConfig) (removed produced : Nat) : Producer → Prop
  | .arrive | .startBarrier => produced = 0
  | .wait i => i = UInt64.ofNat (produced + 1) ∧ produced < cfg.messageCount.toNat
  | .payloadA i | .payloadB i | .publish i => i = UInt64.ofNat (produced + 1) ∧
      produced < cfg.messageCount.toNat ∧ produced < removed + cfg.ringSize.value.toNat
  | .joined => produced = cfg.messageCount.toNat

/-- Where the consumer is after some messages. `visible` counts the stores of the write index in
memory. -/
def Consumer.At (cfg : HandoffConfig) (visible consumed : Nat) : Consumer → Prop
  | .arrive | .startBarrier => consumed = 0
  | .wait i sum => i = UInt64.ofNat (consumed + 1) ∧ consumed < cfg.messageCount.toNat ∧
      sum = checksum consumed
  | .payloadA i sum => i = UInt64.ofNat (consumed + 1) ∧ consumed < cfg.messageCount.toNat ∧
      sum = checksum consumed ∧ consumed < visible
  | .payloadB i sum a => i = UInt64.ofNat (consumed + 1) ∧ consumed < cfg.messageCount.toNat ∧
      sum = checksum consumed ∧ consumed < visible ∧ a = payload i 0
  | .release i sum => i = UInt64.ofNat (consumed + 1) ∧ consumed < cfg.messageCount.toNat ∧
      sum = checksum (consumed + 1) ∧ consumed < visible
  | .joined sum => consumed = cfg.messageCount.toNat ∧ sum = checksum consumed

/-- The invariant, after `produced` messages of the producer and `consumed` of the consumer. -/
structure Inv (cfg : HandoffConfig) (seen : Party → List (Address 2 × UInt64))
    (produced consumed : Nat) (state : State) : Prop where
  memory : RingMemory cfg.ringSize (fun _ _ => 0) seen state.memory (messages produced)
    (state.producer.part cfg produced) consumed
  producer : state.producer.At cfg (seen .consumer).length produced
  consumer : state.consumer.At cfg (published (seen .producer)) consumed

section Messages

variable {cfg : HandoffConfig} {count : Nat}

theorem ofNat_succ_sub_one (count : Nat) :
    UInt64.ofNat (count + 1) - 1 = UInt64.ofNat count := by
  rw [← ofNat_succ, UInt64.add_sub_cancel]

/-- The loop counter does not wrap. -/
theorem toNat_counter (cfg : HandoffConfig) (h : count ≤ cfg.messageCount.toNat) :
    (UInt64.ofNat (count + 1)).toNat = count + 1 := by
  have hlt := cfg.messageCount_lt
  rw [UInt64.toNat_ofNat', Nat.mod_eq_of_lt (by omega)]

theorem counter_le_iff (cfg : HandoffConfig) (h : count ≤ cfg.messageCount.toNat) :
    UInt64.ofNat (count + 1) ≤ cfg.messageCount ↔ count < cfg.messageCount.toNat := by
  rw [UInt64.le_iff_toNat_le, toNat_counter cfg h]
  exact Nat.succ_le_iff

@[simp] theorem length_messages (count : Nat) : (messages count).length = count := by
  simp [messages]

theorem messages_succ (count : Nat) :
    messages (count + 1) = messages count ++ [payload (UInt64.ofNat (count + 1))] := by
  simp [messages, List.range_succ]

theorem getElem?_messages {position : Nat} (h : position < count) :
    (messages count)[position]? = some (payload (UInt64.ofNat (position + 1))) := by
  simp [messages, h]

/-- The words of a slot, one and two of them. -/
theorem slotStores_take_two (capacity : Capacity) (position : Nat) (item : Item 2) :
    (slotStores capacity position item).take 2 = slotStores capacity position item :=
  slotStores_take_words position item

/-- After the test of the producer's loop. -/
theorem Producer.loop_at (cfg : HandoffConfig) (removed : Nat)
    (h : count ≤ cfg.messageCount.toNat) :
    (Producer.loop cfg (UInt64.ofNat (count + 1))).At cfg removed count ∧
      (Producer.loop cfg (UInt64.ofNat (count + 1))).part cfg count = [] := by
  simp only [Producer.loop, counter_le_iff cfg h]
  split
  · next hlt => exact ⟨⟨rfl, hlt⟩, rfl⟩
  · next hge => exact ⟨Nat.le_antisymm h (Nat.le_of_not_lt hge), rfl⟩

/-- After the test of the consumer's loop. -/
theorem Consumer.loop_at (cfg : HandoffConfig) (visible : Nat)
    (h : count ≤ cfg.messageCount.toNat) :
    (Consumer.loop cfg (UInt64.ofNat (count + 1)) (checksum count)).At cfg visible count := by
  simp only [Consumer.loop, counter_le_iff cfg h]
  split
  · next hlt => exact ⟨rfl, hlt, rfl⟩
  · next hge => exact ⟨Nat.le_antisymm h (Nat.le_of_not_lt hge), rfl⟩

/-- What the producer knows outlives more stores of the read index. -/
theorem Producer.At.mono {removed removed' : Nat} {pc : Producer} (h : pc.At cfg removed count)
    (hle : removed ≤ removed') : pc.At cfg removed' count := by
  cases pc with
  | payloadA i | payloadB i | publish i =>
      obtain ⟨hi, hlt, hroom⟩ := h
      exact ⟨hi, hlt, by omega⟩
  | arrive | startBarrier | wait | joined => exact h

/-- What the consumer knows outlives more stores of the write index. -/
theorem Consumer.At.mono {visible visible' : Nat} {pc : Consumer} (h : pc.At cfg visible count)
    (hle : visible ≤ visible') : pc.At cfg visible' count := by
  cases pc with
  | payloadA i sum | release i sum =>
      obtain ⟨hi, hlt, hsum, hvisible⟩ := h
      exact ⟨hi, hlt, hsum, by omega⟩
  | payloadB i sum a =>
      obtain ⟨hi, hlt, hsum, hvisible, ha⟩ := h
      exact ⟨hi, hlt, hsum, by omega, ha⟩
  | arrive | startBarrier | wait | joined => exact h

/-- The producer has not pushed more than all the messages. -/
theorem Producer.At.le {removed : Nat} {pc : Producer} (h : pc.At cfg removed count) :
    count ≤ cfg.messageCount.toNat := by
  cases pc with
  | arrive | startBarrier =>
      obtain rfl : count = 0 := h
      exact Nat.zero_le _
  | wait i => exact Nat.le_of_lt h.2
  | payloadA i | payloadB i | publish i => exact Nat.le_of_lt h.2.1
  | joined => exact Nat.le_of_eq h

end Messages

section Steps

variable {cfg : HandoffConfig} {seen : Party → List (Address 2 × UInt64)}
  {produced consumed : Nat} {state next : State}

/-- The producer moves without storing. -/
theorem Inv.producer_moves (h : Inv cfg seen produced consumed state) {pc : Producer}
    (hpart : pc.part cfg produced = state.producer.part cfg produced)
    (hpc : pc.At cfg (seen .consumer).length produced) :
    Inv cfg seen produced consumed { state with producer := pc } where
  memory := by
    show RingMemory cfg.ringSize (fun _ _ => 0) seen state.memory (messages produced)
      (pc.part cfg produced) consumed
    rw [hpart]
    exact h.memory
  producer := hpc
  consumer := h.consumer

/-- The consumer moves without storing. -/
theorem Inv.consumer_moves (h : Inv cfg seen produced consumed state) {pc : Consumer}
    (hpc : pc.At cfg (published (seen .producer)) consumed) :
    Inv cfg seen produced consumed { state with consumer := pc } :=
  ⟨h.memory, h.producer, hpc⟩

/-- The read index in memory is less than a lap behind iff there is room for a message. -/
theorem Inv.room_iff (h : Inv cfg seen produced consumed state) :
    cfg.ringSize.value ≤ UInt64.ofNat (produced + 1) - 1 - state.memory.load .producer .readIdx ↔
      (seen .consumer).length + cfg.ringSize.value.toNat ≤ produced := by
  have hbounded := h.memory.bounded
  have hremoved := h.memory.removed_le
  have hvisible := h.memory.visible
  have hpublished := h.memory.published_le
  rw [length_messages] at hbounded hpublished
  rw [h.memory.load_other (by simp), h.memory.memory_readIdx, ofNat_succ_sub_one,
    UInt64.le_iff_toNat_le, toNat_ofNat_sub (by omega) hbounded]
  omega

/-- The write index in memory has not reached a message iff the message is not published. -/
theorem Inv.unpublished_iff (h : Inv cfg seen produced consumed state)
    (hle : consumed ≤ cfg.messageCount.toNat) :
    state.memory.load .consumer .writeIdx < UInt64.ofNat (consumed + 1) ↔
      published (seen .producer) ≤ consumed := by
  have hproduced := h.producer.le
  have hpublished := h.memory.published_le
  have hlt := cfg.messageCount_lt
  rw [length_messages] at hpublished
  rw [h.memory.load_other (by simp), h.memory.memory_writeIdx, UInt64.lt_iff_toNat_lt,
    toNat_counter cfg hle, UInt64.toNat_ofNat', Nat.mod_eq_of_lt (by omega)]
  exact Nat.lt_succ_iff

/-- A published message that is not removed is in its slot. -/
theorem Inv.load_payload (h : Inv cfg seen produced consumed state)
    (hvisible : consumed < published (seen .producer)) (word : Fin 2) :
    state.memory.load .consumer
        (.slot (slotOf cfg.ringSize (UInt64.ofNat (consumed + 1) - 1)) word) =
      payload (UInt64.ofNat (consumed + 1)) word := by
  have hpublished := h.memory.published_le
  rw [length_messages] at hpublished
  rw [h.memory.load_other (by simp), ofNat_succ_sub_one]
  exact h.memory.memory_slot h.memory.removed_le (getElem?_messages (by omega)) hvisible word

/-- A step of the producer keeps the invariant. -/
theorem Inv.produce (h : Inv cfg seen produced consumed state)
    (hstep : produce cfg state = some next) :
    ∃ seen' produced', Inv cfg seen' produced' consumed next := by
  have hproducer := h.producer
  have hmemory := h.memory
  unfold Handoff.produce at hstep
  cases hpc : state.producer with
  | arrive =>
      simp only [hpc, Option.some.injEq] at hstep hproducer
      subst hstep
      exact ⟨seen, produced, h.producer_moves (by rw [hpc]; rfl) hproducer⟩
  | startBarrier =>
      simp only [hpc] at hstep hproducer
      obtain rfl : produced = 0 := hproducer
      split at hstep
      · cases hstep
      · obtain rfl := Option.some.inj hstep
        obtain ⟨hat, hpart⟩ := Producer.loop_at cfg (seen .consumer).length (Nat.zero_le _)
        exact ⟨seen, 0, h.producer_moves (by rw [hpc]; exact hpart) hat⟩
  | wait i =>
      simp only [hpc] at hstep hproducer
      obtain ⟨rfl, hlt⟩ := hproducer
      split at hstep
      · obtain rfl := Option.some.inj hstep
        exact ⟨seen, produced, h⟩
      · next hroom =>
          obtain rfl := Option.some.inj hstep
          rw [ge_iff_le, h.room_iff] at hroom
          exact ⟨seen, produced, h.producer_moves (by rw [hpc]; rfl) ⟨rfl, hlt, by omega⟩⟩
  | payloadA i =>
      simp only [hpc, Option.some.injEq] at hstep hproducer hmemory
      subst hstep
      obtain ⟨rfl, hlt, hroom⟩ := hproducer
      refine ⟨seen, produced, ?_, ⟨rfl, hlt, hroom⟩, h.consumer⟩
      have hword := RingMemory.store_word (payload (UInt64.ofNat (produced + 1)))
        (Nat.zero_lt_two) hmemory (by rw [length_messages]; exact hroom)
      rw [length_messages] at hword
      rw [ofNat_succ_sub_one]
      exact hword
  | payloadB i =>
      simp only [hpc, Option.some.injEq] at hstep hproducer hmemory
      subst hstep
      obtain ⟨rfl, hlt, hroom⟩ := hproducer
      refine ⟨seen, produced, ?_, ⟨rfl, hlt, hroom⟩, h.consumer⟩
      have hword := RingMemory.store_word (payload (UInt64.ofNat (produced + 1)))
        (Nat.one_lt_two) (by rw [length_messages]; exact hmemory)
        (by rw [length_messages]; exact hroom)
      rw [length_messages, slotStores_take_two] at hword
      rw [ofNat_succ_sub_one]
      exact hword
  | publish i =>
      simp only [hpc] at hstep hproducer hmemory
      obtain ⟨rfl, hlt, hroom⟩ := hproducer
      obtain ⟨memory, hstore, rfl⟩ := Option.map_eq_some_iff.mp hstep
      obtain ⟨seen', hgrows, hmemory'⟩ := RingMemory.store_writeIdx
        (payload (UInt64.ofNat (produced + 1)))
        (by rw [length_messages]; exact hmemory) (by rw [length_messages]; exact hroom)
        (by rw [length_messages]; exact hstore)
      obtain ⟨hat, hpart⟩ := Producer.loop_at cfg (seen' .consumer).length
        (Nat.succ_le_of_lt hlt)
      rw [← messages_succ] at hmemory'
      rw [ofNat_succ]
      refine ⟨seen', produced + 1, ?_, hat, h.consumer.mono hgrows.published⟩
      show RingMemory cfg.ringSize _ seen' memory (messages (produced + 1))
        ((Producer.loop cfg (UInt64.ofNat (produced + 1 + 1))).part cfg (produced + 1)) consumed
      rw [hpart]
      exact hmemory'
  | joined => simp [hpc] at hstep

/-- A step of the consumer keeps the invariant. -/
theorem Inv.consume (h : Inv cfg seen produced consumed state)
    (hstep : consume cfg state = some next) :
    ∃ seen' consumed', Inv cfg seen' produced consumed' next := by
  have hconsumer := h.consumer
  unfold Handoff.consume at hstep
  cases hpc : state.consumer with
  | arrive =>
      simp only [hpc, Option.some.injEq] at hstep hconsumer
      subst hstep
      exact ⟨seen, consumed, h.consumer_moves hconsumer⟩
  | startBarrier =>
      simp only [hpc] at hstep hconsumer
      obtain rfl : consumed = 0 := hconsumer
      split at hstep
      · cases hstep
      · obtain rfl := Option.some.inj hstep
        exact ⟨seen, 0, h.consumer_moves (Consumer.loop_at cfg _ (Nat.zero_le _))⟩
  | wait i sum =>
      simp only [hpc] at hstep hconsumer
      obtain ⟨rfl, hlt, hsum⟩ := hconsumer
      split at hstep
      · obtain rfl := Option.some.inj hstep
        exact ⟨seen, consumed, h⟩
      · next hvisible =>
          obtain rfl := Option.some.inj hstep
          rw [h.unpublished_iff (Nat.le_of_lt hlt)] at hvisible
          exact ⟨seen, consumed, h.consumer_moves ⟨rfl, hlt, hsum, Nat.lt_of_not_le hvisible⟩⟩
  | payloadA i sum =>
      simp only [hpc, Option.some.injEq] at hstep hconsumer
      subst hstep
      obtain ⟨rfl, hlt, hsum, hvisible⟩ := hconsumer
      exact ⟨seen, consumed, h.consumer_moves ⟨rfl, hlt, hsum, hvisible, h.load_payload hvisible 0⟩⟩
  | payloadB i sum a =>
      simp only [hpc, Option.some.injEq] at hstep hconsumer
      subst hstep
      obtain ⟨rfl, hlt, rfl, hvisible, rfl⟩ := hconsumer
      refine ⟨seen, consumed, h.consumer_moves ⟨rfl, hlt, ?_, hvisible⟩⟩
      rw [h.load_payload hvisible 1]
      rfl
  | release i sum =>
      simp only [hpc] at hstep hconsumer
      obtain ⟨rfl, hlt, rfl, hvisible⟩ := hconsumer
      obtain ⟨memory, hstore, rfl⟩ := Option.map_eq_some_iff.mp hstep
      obtain ⟨seen', hgrows, hmemory⟩ := h.memory.store_readIdx hvisible hstore
      rw [ofNat_succ]
      exact ⟨seen', consumed + 1, hmemory, h.producer.mono hgrows.removed,
        Consumer.loop_at cfg _ (Nat.succ_le_of_lt hlt)⟩
  | joined sum => simp [hpc] at hstep

/-- Every step keeps the invariant. -/
theorem Inv.step (h : Inv cfg seen produced consumed state) {event : Event}
    (hstep : step cfg state event = some next) :
    ∃ seen' produced' consumed', Inv cfg seen' produced' consumed' next := by
  cases event with
  | produce =>
      obtain ⟨seen', produced', hnext⟩ := h.produce hstep
      exact ⟨seen', produced', consumed, hnext⟩
  | consume =>
      obtain ⟨seen', consumed', hnext⟩ := h.consume hstep
      exact ⟨seen', produced, consumed', hnext⟩
  | drain party =>
      obtain ⟨memory, hdrain, rfl⟩ := Option.map_eq_some_iff.mp hstep
      obtain ⟨seen', hgrows, hmemory⟩ := h.memory.drain hdrain
      exact ⟨seen', produced, consumed, hmemory, h.producer.mono hgrows.removed,
        h.consumer.mono hgrows.published⟩

theorem inv_of_reachable (h : (handoff cfg).Reachable (fun _ _ => True) state) :
    ∃ seen produced consumed, Inv cfg seen produced consumed state := by
  refine h.invariant (fun state => ∃ seen produced consumed, Inv cfg seen produced consumed state)
    ?_ ?_
  · intro start hstart
    obtain rfl : start = _ := hstart
    exact ⟨fun _ => [], 0, 0, .start cfg.ringSize fun _ _ => 0, rfl, rfl⟩
  · intro before event after ⟨seen, produced, consumed, hinv⟩ _ hstep
    exact hinv.step hstep

end Steps

/-! ## The work that is left -/

/-- The number of stores in the buffers. -/
def stored (memory : Buffered Party (Address 2) UInt64) : Nat :=
  (memory.buffers .producer).length + (memory.buffers .consumer).length

/-- The messages from one on. -/
def left (cfg : HandoffConfig) (i : UInt64) : Nat := cfg.messageCount.toNat + 1 - i.toNat

/-- The steps that the producer has left, and those of its stores to memory. -/
def Producer.work (cfg : HandoffConfig) : Producer → Nat
  | .arrive => 7 * cfg.messageCount.toNat + 2
  | .startBarrier => 7 * cfg.messageCount.toNat + 1
  | .wait i => 7 * left cfg i
  | .payloadA i => 7 * left cfg i - 1
  | .payloadB i => 7 * left cfg i - 3
  | .publish i => 7 * left cfg i - 5
  | .joined => 0

/-- The steps that the consumer has left, and those of its stores to memory. -/
def Consumer.work (cfg : HandoffConfig) : Consumer → Nat
  | .arrive => 5 * cfg.messageCount.toNat + 2
  | .startBarrier => 5 * cfg.messageCount.toNat + 1
  | .wait i _ => 5 * left cfg i
  | .payloadA i _ => 5 * left cfg i - 1
  | .payloadB i _ _ => 5 * left cfg i - 2
  | .release i _ => 5 * left cfg i - 3
  | .joined _ => 0

/-- The steps that are left, apart from those that spin. -/
def work (cfg : HandoffConfig) (state : State) : Nat :=
  state.producer.work cfg + state.consumer.work cfg + stored state.memory

section Work

variable {cfg : HandoffConfig} {memory memory' : Buffered Party (Address 2) UInt64}
  {state next : State} {count : Nat}

theorem stored_store (party : Party) (address : Address 2) (value : UInt64) :
    stored (memory.store party address value) = stored memory + 1 := by
  cases party with
  | producer =>
      rw [stored, Buffered.buffers_store_self, Buffered.buffers_store_of_ne (by decide), stored,
        List.length_append, List.length_singleton]
      omega
  | consumer =>
      rw [stored, Buffered.buffers_store_self, Buffered.buffers_store_of_ne (by decide), stored,
        List.length_append, List.length_singleton]
      omega

theorem stored_storeIndex {order : Order} {party : Party} {address : Address 2} {value : UInt64}
    (h : storeIndex order memory party address value = some memory') :
    stored memory' ≤ stored memory + 1 := by
  cases order with
  | seqCst =>
      obtain ⟨-, rfl⟩ := Buffered.exchange_eq_some h
      exact Nat.le_succ _
  | acquireRelease =>
      obtain rfl := Option.some.inj h
      exact Nat.le_of_eq (stored_store party address value)

theorem stored_drain {party : Party} (h : memory.drain party = some memory') :
    stored memory' < stored memory := by
  obtain ⟨address, value, hbuffer, -, hothers⟩ := Buffered.drain_eq_some h
  cases party with
  | producer =>
      rw [stored, stored, hbuffer, hothers .consumer (by decide), List.length_cons]
      omega
  | consumer =>
      rw [stored, stored, hbuffer, hothers .producer (by decide), List.length_cons]
      omega

theorem left_succ (h : count ≤ cfg.messageCount.toNat) :
    left cfg (UInt64.ofNat (count + 1)) = cfg.messageCount.toNat - count := by
  rw [left, toNat_counter cfg h]
  omega

theorem Producer.work_loop (cfg : HandoffConfig) (i : UInt64) :
    (Producer.loop cfg i).work cfg ≤ 7 * left cfg i := by
  unfold Producer.loop
  split
  · exact Nat.le_refl _
  · exact Nat.zero_le _

theorem Consumer.work_loop (cfg : HandoffConfig) (i sum : UInt64) :
    (Consumer.loop cfg i sum).work cfg ≤ 5 * left cfg i := by
  unfold Consumer.loop
  split
  · exact Nat.le_refl _
  · exact Nat.zero_le _

variable {seen : Party → List (Address 2 × UInt64)} {produced consumed : Nat}

/-- A step of the producer leaves less work, unless it finds the ring full. -/
theorem Inv.produce_work (h : Inv cfg seen produced consumed state)
    (hstep : Handoff.produce cfg state = some next) :
    work cfg next < work cfg state ∨
      next = state ∧ (seen .consumer).length + cfg.ringSize.value.toNat ≤ produced := by
  have hproducer := h.producer
  unfold Handoff.produce at hstep
  simp only [work]
  cases hpc : state.producer with
  | arrive =>
      simp only [hpc, Option.some.injEq] at hstep
      subst hstep
      exact .inl (by simp only [Producer.work]; omega)
  | startBarrier =>
      simp only [hpc] at hstep
      split at hstep
      · cases hstep
      · obtain rfl := Option.some.inj hstep
        have hloop := Producer.work_loop cfg (UInt64.ofNat (0 + 1))
        rw [left_succ (Nat.zero_le _)] at hloop
        left
        show (Producer.loop cfg (UInt64.ofNat (0 + 1))).work cfg + state.consumer.work cfg +
          stored state.memory < 7 * cfg.messageCount.toNat + 1 + _ + _
        omega
  | wait i =>
      simp only [hpc] at hstep hproducer
      obtain ⟨rfl, hlt⟩ := hproducer
      split at hstep
      · next hfull =>
          obtain rfl := Option.some.inj hstep
          exact .inr ⟨rfl, h.room_iff.mp hfull⟩
      · obtain rfl := Option.some.inj hstep
        simp only [Producer.work, left_succ (Nat.le_of_lt hlt)]
        exact .inl (by omega)
  | payloadA i =>
      simp only [hpc, Option.some.injEq] at hstep hproducer
      subst hstep
      obtain ⟨rfl, hlt, -⟩ := hproducer
      simp only [Producer.work, left_succ (Nat.le_of_lt hlt), stored_store]
      exact .inl (by omega)
  | payloadB i =>
      simp only [hpc, Option.some.injEq] at hstep hproducer
      subst hstep
      obtain ⟨rfl, hlt, -⟩ := hproducer
      simp only [Producer.work, left_succ (Nat.le_of_lt hlt), stored_store]
      exact .inl (by omega)
  | publish i =>
      simp only [hpc] at hstep hproducer
      obtain ⟨rfl, hlt, -⟩ := hproducer
      obtain ⟨memory, hstore, rfl⟩ := Option.map_eq_some_iff.mp hstep
      have hstored := stored_storeIndex hstore
      have hloop := Producer.work_loop cfg (UInt64.ofNat (produced + 1 + 1))
      rw [left_succ (Nat.succ_le_of_lt hlt)] at hloop
      have hleft := left_succ (Nat.le_of_lt hlt)
      rw [ofNat_succ]
      left
      show (Producer.loop cfg _).work cfg + state.consumer.work cfg + stored memory <
        7 * left cfg (UInt64.ofNat (produced + 1)) - 5 + _ + _
      omega
  | joined => simp [hpc] at hstep

/-- A step of the consumer leaves less work, unless it finds the message unpublished. -/
theorem Inv.consume_work (h : Inv cfg seen produced consumed state)
    (hstep : Handoff.consume cfg state = some next) :
    work cfg next < work cfg state ∨
      next = state ∧ consumed < cfg.messageCount.toNat ∧
        published (seen .producer) ≤ consumed := by
  have hconsumer := h.consumer
  unfold Handoff.consume at hstep
  simp only [work]
  cases hpc : state.consumer with
  | arrive =>
      simp only [hpc, Option.some.injEq] at hstep
      subst hstep
      exact .inl (by simp only [Consumer.work]; omega)
  | startBarrier =>
      simp only [hpc] at hstep
      split at hstep
      · cases hstep
      · obtain rfl := Option.some.inj hstep
        have hloop := Consumer.work_loop cfg (UInt64.ofNat (0 + 1)) 0
        rw [left_succ (Nat.zero_le _)] at hloop
        left
        show state.producer.work cfg + (Consumer.loop cfg (UInt64.ofNat (0 + 1)) 0).work cfg +
          stored state.memory < _ + (5 * cfg.messageCount.toNat + 1) + _
        omega
  | wait i sum =>
      simp only [hpc] at hstep hconsumer
      obtain ⟨rfl, hlt, -⟩ := hconsumer
      split at hstep
      · next hunpublished =>
          obtain rfl := Option.some.inj hstep
          exact .inr ⟨rfl, hlt, (h.unpublished_iff (Nat.le_of_lt hlt)).mp hunpublished⟩
      · obtain rfl := Option.some.inj hstep
        simp only [Consumer.work, left_succ (Nat.le_of_lt hlt)]
        exact .inl (by omega)
  | payloadA i sum =>
      simp only [hpc, Option.some.injEq] at hstep hconsumer
      subst hstep
      obtain ⟨rfl, hlt, -⟩ := hconsumer
      simp only [Consumer.work, left_succ (Nat.le_of_lt hlt)]
      exact .inl (by omega)
  | payloadB i sum a =>
      simp only [hpc, Option.some.injEq] at hstep hconsumer
      subst hstep
      obtain ⟨rfl, hlt, -⟩ := hconsumer
      simp only [Consumer.work, left_succ (Nat.le_of_lt hlt)]
      exact .inl (by omega)
  | release i sum =>
      simp only [hpc] at hstep hconsumer
      obtain ⟨rfl, hlt, -⟩ := hconsumer
      obtain ⟨memory, hstore, rfl⟩ := Option.map_eq_some_iff.mp hstep
      have hstored := stored_storeIndex hstore
      have hloop := Consumer.work_loop cfg (UInt64.ofNat (consumed + 1 + 1)) sum
      rw [left_succ (Nat.succ_le_of_lt hlt)] at hloop
      have hleft := left_succ (Nat.le_of_lt hlt)
      rw [ofNat_succ]
      left
      show state.producer.work cfg + (Consumer.loop cfg _ sum).work cfg + stored memory <
        _ + (5 * left cfg (UInt64.ofNat (consumed + 1)) - 3) + _
      omega
  | joined sum => simp [hpc] at hstep

/-- Every step leaves less work or spins. -/
theorem Inv.step_work (h : Inv cfg seen produced consumed state) {event : Event}
    (hstep : Handoff.step cfg state event = some next) :
    next = state ∨ work cfg next < work cfg state := by
  cases event with
  | produce =>
      cases h.produce_work hstep with
      | inl hless => exact .inr hless
      | inr hspin => exact .inl hspin.1
  | consume =>
      cases h.consume_work hstep with
      | inl hless => exact .inr hless
      | inr hspin => exact .inl hspin.1
  | drain party =>
      obtain ⟨memory, hdrain, rfl⟩ := Option.map_eq_some_iff.mp hstep
      exact .inr (Nat.add_lt_add_left (stored_drain hdrain) _)

/-- An index can be stored once the thread's buffer is empty. -/
theorem storeIndex_isSome (order : Order) {party : Party} (address : Address 2) (value : UInt64)
    (h : memory.flushed party = true) :
    ∃ memory', storeIndex order memory party address value = some memory' := by
  cases order with
  | seqCst => exact ⟨_, if_pos h⟩
  | acquireRelease => exact ⟨_, rfl⟩

/-- The producer has a step once its buffer is empty and the consumer has arrived. -/
theorem produce_isSome (cfg : HandoffConfig) (hjoined : state.producer ≠ .joined)
    (hconsumer : state.consumer ≠ .arrive) (hflushed : state.memory.flushed .producer = true) :
    ∃ next, Handoff.produce cfg state = some next := by
  unfold Handoff.produce
  cases hpc : state.producer with
  | startBarrier =>
      cases harrive : state.consumer with
      | arrive => exact absurd harrive hconsumer
      | startBarrier | wait | payloadA | payloadB | release | joined => exact ⟨_, rfl⟩
  | wait i =>
      dsimp only
      split
      · exact ⟨_, rfl⟩
      · exact ⟨_, rfl⟩
  | publish i =>
      obtain ⟨memory, hstore⟩ := storeIndex_isSome cfg.order .writeIdx i hflushed
      exact ⟨_, Option.map_eq_some_iff.mpr ⟨memory, hstore, rfl⟩⟩
  | joined => exact absurd hpc hjoined
  | arrive | payloadA | payloadB => exact ⟨_, rfl⟩

/-- The consumer has a step once its buffer is empty and the producer has arrived. -/
theorem consume_isSome (cfg : HandoffConfig) (hjoined : ∀ sum, state.consumer ≠ .joined sum)
    (hproducer : state.producer ≠ .arrive) (hflushed : state.memory.flushed .consumer = true) :
    ∃ next, Handoff.consume cfg state = some next := by
  unfold Handoff.consume
  cases hpc : state.consumer with
  | startBarrier =>
      cases harrive : state.producer with
      | arrive => exact absurd harrive hproducer
      | startBarrier | wait | payloadA | payloadB | publish | joined => exact ⟨_, rfl⟩
  | wait i sum =>
      dsimp only
      split
      · exact ⟨_, rfl⟩
      · exact ⟨_, rfl⟩
  | release i sum =>
      obtain ⟨memory, hstore⟩ := storeIndex_isSome cfg.order .readIdx i hflushed
      exact ⟨_, Option.map_eq_some_iff.mpr ⟨memory, hstore, rfl⟩⟩
  | joined sum => exact absurd hpc (hjoined sum)
  | arrive | payloadA | payloadB => exact ⟨_, rfl⟩

/-- A step of the consumer that does not spin. -/
theorem Inv.consumer_progress (h : Inv cfg seen produced consumed state)
    (hjoined : ∀ sum, state.consumer ≠ .joined sum) (hproducer : state.producer ≠ .arrive)
    (hflushed : state.memory.flushed .consumer = true)
    (hvisible : consumed < cfg.messageCount.toNat → consumed < published (seen .producer)) :
    ∃ event next, Handoff.step cfg state event = some next ∧ work cfg next < work cfg state := by
  obtain ⟨next, hstep⟩ := consume_isSome cfg hjoined hproducer hflushed
  refine ⟨.consume, next, hstep, ?_⟩
  cases h.consume_work hstep with
  | inl hless => exact hless
  | inr hspin =>
      have hlt := hvisible hspin.2.1
      exact absurd hspin.2.2 (Nat.not_le_of_lt hlt)

/-- With empty buffers the producer moves, or the consumer does while the ring is full or the
producer has returned. -/
theorem Inv.flushed_moves (h : Inv cfg seen produced consumed state) (hnot : ¬ finished state)
    (hproducer : state.memory.flushed .producer = true)
    (hconsumer : state.memory.flushed .consumer = true) :
    ∃ event next, Handoff.step cfg state event = some next ∧ work cfg next < work cfg state := by
  have hpublished := h.memory.published_of_flushed hproducer
  have hremoved := h.memory.removed_of_flushed hconsumer
  have hle := h.producer.le
  have hpos := cfg.ringSize.pos
  rw [length_messages] at hpublished
  by_cases harrive : state.consumer = .arrive
  · have hstep : Handoff.step cfg state .consume =
        some { state with consumer := .startBarrier } := by
      show Handoff.consume cfg state = _
      rw [Handoff.consume, harrive]
    refine ⟨.consume, _, hstep, ?_⟩
    cases h.consume_work hstep with
    | inl hless => exact hless
    | inr hspin =>
        have hsame := congrArg State.consumer hspin.1
        rw [harrive] at hsame
        cases hsame
  by_cases hstart : state.producer = .arrive
  · have hstep : Handoff.step cfg state .produce =
        some { state with producer := .startBarrier } := by
      show Handoff.produce cfg state = _
      rw [Handoff.produce, hstart]
    refine ⟨.produce, _, hstep, ?_⟩
    cases h.produce_work hstep with
    | inl hless => exact hless
    | inr hspin =>
        have hsame := congrArg State.producer hspin.1
        rw [hstart] at hsame
        cases hsame
  by_cases hjoined : state.producer = .joined
  · have hall : produced = cfg.messageCount.toNat := by
      have hat := h.producer
      rw [hjoined] at hat
      exact hat
    refine h.consumer_progress (fun sum hdone => hnot ⟨hjoined, sum, hdone⟩) hstart hconsumer ?_
    omega
  · obtain ⟨next, hstep⟩ := produce_isSome cfg hjoined harrive hproducer
    cases h.produce_work hstep with
    | inl hless => exact ⟨.produce, next, hstep, hless⟩
    | inr hfull =>
        -- The producer spins, so there are messages for the consumer.
        have hbehind : consumed < produced := by omega
        refine h.consumer_progress (fun sum hdone => ?_) hstart hconsumer (by omega)
        have hat := h.consumer
        rw [hdone] at hat
        have hall : consumed = cfg.messageCount.toNat := hat.1
        omega

/-- As long as the threads have not returned, some step leaves less work. -/
theorem Inv.moves (h : Inv cfg seen produced consumed state) (hnot : ¬ finished state) :
    ∃ event next, Handoff.step cfg state event = some next ∧ work cfg next < work cfg state := by
  -- A store that is in a buffer can reach memory.
  have hdrain : ∀ party, state.memory.flushed party = false → ∃ event next,
      Handoff.step cfg state event = some next ∧ work cfg next < work cfg state := by
    intro party hpending
    obtain ⟨memory, hmemory⟩ := Buffered.drain_isSome hpending
    exact ⟨.drain party, { state with memory := memory },
      Option.map_eq_some_iff.mpr ⟨memory, hmemory, rfl⟩,
      Nat.add_lt_add_left (stored_drain hmemory) _⟩
  cases hproducer : state.memory.flushed .producer with
  | false => exact hdrain .producer hproducer
  | true =>
      cases hconsumer : state.memory.flushed .consumer with
      | false => exact hdrain .consumer hconsumer
      | true => exact h.flushed_moves hnot hproducer hconsumer

end Work

/-- In every run of the handoff, with either kind of index store, the checksum is that of the
messages and both threads return. -/
theorem handoff_correct (cfg : HandoffConfig) : Correct cfg := by
  refine ⟨fun state hreach sum hjoined => ?_, .of_work (work cfg) ?_ ?_⟩
  · obtain ⟨seen, produced, consumed, h⟩ := inv_of_reachable hreach
    have hat := h.consumer
    rw [hjoined] at hat
    obtain ⟨hall, hsum⟩ := hat
    rw [hsum, hall]
  · intro state event next hreach _ hstep
    obtain ⟨seen, produced, consumed, h⟩ := inv_of_reachable hreach
    exact h.step_work hstep
  · intro state hreach hnot
    obtain ⟨seen, produced, consumed, h⟩ := inv_of_reachable hreach
    obtain ⟨event, next, hstep, hless⟩ := h.moves hnot
    exact ⟨event, next, trivial, hstep, hless⟩

end Handoff

end HotPath.StoreBuffer.Tso
