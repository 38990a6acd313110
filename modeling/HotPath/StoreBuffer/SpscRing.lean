import HotPath.Foundation.CircularBytes
import HotPath.Foundation.Transition

/-!
# The single-producer single-consumer ring

`SpscRingBuffer`, one access at a time. One producer calls `TryPush` and one consumer calls
`TryPop`. The sequentially consistent and the acquire-release variants make the same accesses in
the same order. The indices are 64-bit words that wrap around, and they name slots by their low
bits.

`bounded_fifo` says that the ring is a bounded queue. The invariant keeps both indices as the
lengths of two lists, the pushed and the popped items.
-/

namespace HotPath.StoreBuffer

open HotPath.Foundation

/-- The template argument `Capacity`, a power of two. -/
structure Capacity where
  value : UInt64
  exponent : Nat
  exponent_lt : exponent < 64
  value_eq : value.toNat = 2 ^ exponent

/-- The slot that an index names, `index & (Capacity - 1)`. -/
def slotOf (capacity : Capacity) (index : UInt64) : UInt64 :=
  index &&& (capacity.value - 1)

/-- The memory orders of the two variants of each operation. -/
inductive Order where
  | seqCst
  | acquireRelease
  deriving DecidableEq

/-- Where the producer is. -/
inductive ProducerPc (Item : Type) where
  | idle
  | loadWrite (order : Order) (item : Item)
  | loadRead (order : Order) (item : Item) (w : UInt64)
  | writeSlot (order : Order) (item : Item) (w : UInt64)
  | storeWrite (order : Order) (item : Item) (w : UInt64)
  | returned (result : Bool)

/-- Where the consumer is. A consumer that has popped an item holds it. -/
inductive ConsumerPc (Item : Type) where
  | idle
  | loadRead (order : Order)
  | loadWrite (order : Order) (r : UInt64)
  | readSlot (order : Order) (r : UInt64)
  | storeRead (order : Order) (r : UInt64) (out : Item)
  | returned (result : Option Item)

/-- The ring, its producer and its consumer. -/
structure State (Item : Type) where
  writeIdx : UInt64
  readIdx : UInt64
  slots : UInt64 → Item
  producer : ProducerPc Item
  consumer : ConsumerPc Item

/-- A call of one of the variants, or the next access. -/
inductive Event (Item : Type) where
  | tryPush (order : Order) (item : Item)
  | pushAccess
  | tryPop (order : Order)
  | popAccess

variable {Item : Type}

/-- The next access of `TryPush`. -/
def pushAccess (capacity : Capacity) (state : State Item) : Option (State Item) :=
  match state.producer with
  | .loadWrite order item =>
      some { state with producer := .loadRead order item state.writeIdx }
  | .loadRead order item w =>
      if w - state.readIdx ≥ capacity.value then some { state with producer := .returned false }
      else some { state with producer := .writeSlot order item w }
  | .writeSlot order item w =>
      some { state with
        slots := Function.update state.slots (slotOf capacity w) item
        producer := .storeWrite order item w }
  | .storeWrite _ _ w => some { state with writeIdx := w + 1, producer := .returned true }
  | _ => none

/-- The next access of `TryPop`. -/
def popAccess (capacity : Capacity) (state : State Item) : Option (State Item) :=
  match state.consumer with
  | .loadRead order => some { state with consumer := .loadWrite order state.readIdx }
  | .loadWrite order r =>
      if r = state.writeIdx then some { state with consumer := .returned none }
      else some { state with consumer := .readSlot order r }
  | .readSlot order r =>
      some { state with consumer := .storeRead order r (state.slots (slotOf capacity r)) }
  | .storeRead _ r out => some { state with readIdx := r + 1, consumer := .returned (some out) }
  | _ => none

/-- One step. -/
def step (capacity : Capacity) (state : State Item) : Event Item → Option (State Item)
  | .tryPush order item =>
      match state.producer with
      | .idle | .returned _ => some { state with producer := .loadWrite order item }
      | _ => none
  | .pushAccess => pushAccess capacity state
  | .tryPop order =>
      match state.consumer with
      | .idle | .returned _ => some { state with consumer := .loadRead order }
      | _ => none
  | .popAccess => popAccess capacity state

/-- The ring as a transition system. The slots begin with any items. -/
def spscRing (Item : Type) (capacity : Capacity) : System (State Item) (Event Item) where
  init state := state.writeIdx = 0 ∧ state.readIdx = 0 ∧ state.producer = .idle ∧
    state.consumer = .idle
  step := step capacity

/-! ## What is remembered of a run -/

/-- The items whose push returned `true`, the popped items, and whether the ring was full at some
instant of the producer's last call and empty at some instant of the consumer's. -/
structure History (Item : Type) where
  pushed : List Item
  popped : List Item
  sawFull : Bool
  sawEmpty : Bool

/-- The number of pending items is the capacity. -/
def History.full (capacity : Capacity) (history : History Item) : Bool :=
  history.pushed.length - history.popped.length == capacity.value.toNat

/-- There are no pending items. -/
def History.empty (history : History Item) : Bool :=
  history.pushed.length - history.popped.length == 0

/-- The producer is inside `TryPush`. -/
def ProducerPc.calling : ProducerPc Item → Bool
  | .idle | .returned _ => false
  | _ => true

/-- The consumer is inside `TryPop`. -/
def ConsumerPc.calling : ConsumerPc Item → Bool
  | .idle | .returned _ => false
  | _ => true

/-- The items after a step. -/
def recordItems (state : State Item) (event : Event Item) (history : History Item) :
    History Item :=
  match event with
  | .pushAccess =>
      match state.producer with
      | .storeWrite _ item _ => { history with pushed := history.pushed ++ [item] }
      | _ => history
  | .popAccess =>
      match state.consumer with
      | .storeRead _ _ out => { history with popped := history.popped ++ [out] }
      | _ => history
  | _ => history

/-- The history of a run. The two flags look at every instant between a call and its return. -/
def recorder (capacity : Capacity) : Recorder (State Item) (Event Item) (History Item) where
  start _ := ⟨[], [], false, false⟩
  observe state event _ history :=
    { recordItems state event history with
      sawFull :=
        match event with
        | .tryPush _ _ => history.full capacity
        | _ => history.sawFull || state.producer.calling && history.full capacity
      sawEmpty :=
        match event with
        | .tryPop _ => history.empty
        | _ => history.sawEmpty || state.consumer.calling && history.empty }

/-- The ring is a bounded queue. The popped items are the first pushed items, in order. While the
producer is about to write a slot, it is the slot of no pending item, and not the one that the
consumer is about to read. At most `Capacity` items are pending. A push fails only if the ring was
full at some instant of the call, a pop only if it was empty. -/
structure FifoAt (capacity : Capacity) (pair : State Item × History Item) : Prop where
  order : pair.2.popped <+: pair.2.pushed
  freeSlot : ∀ order item w, pair.1.producer = .writeSlot order item w →
    ∀ position, pair.2.popped.length ≤ position → position < pair.2.pushed.length →
      slotOf capacity (UInt64.ofNat position) ≠ slotOf capacity w
  noOverlap : ∀ order item w, pair.1.producer = .writeSlot order item w →
    ∀ order' r, pair.1.consumer = .readSlot order' r → slotOf capacity w ≠ slotOf capacity r
  bounded : pair.2.pushed.length - pair.2.popped.length ≤ capacity.value.toNat
  full : pair.1.producer = .returned false → pair.2.sawFull = true
  empty : pair.1.consumer = .returned none → pair.2.sawEmpty = true

/-- In every reachable state the ring is a bounded queue. -/
def BoundedFifo (Item : Type) (capacity : Capacity) : Prop :=
  ∀ pair, ((spscRing Item capacity).withHistory (recorder capacity)).Reachable
    (fun _ _ => True) pair → FifoAt capacity pair

/-! ## Indices -/

section Indices

variable {capacity : Capacity} {p q : Nat}

theorem Capacity.pos (capacity : Capacity) : 0 < capacity.value.toNat := by
  rw [capacity.value_eq]
  exact Nat.two_pow_pos _

/-- The slot of the index of a position depends on the position modulo the capacity. -/
theorem slotOf_ofNat (capacity : Capacity) (p : Nat) :
    (slotOf capacity (UInt64.ofNat p)).toNat = p % capacity.value.toNat := by
  have hpos := capacity.pos
  have hone : (1 : UInt64) ≤ capacity.value := by
    rw [UInt64.le_iff_toNat_le]
    exact hpos
  rw [slotOf, UInt64.toNat_and, UInt64.toNat_sub_of_le _ _ hone, UInt64.toNat_ofNat',
    capacity.value_eq]
  change p % 2 ^ 64 &&& (2 ^ capacity.exponent - 1) = _
  rw [Nat.and_two_pow_sub_one_eq_mod,
    Nat.mod_mod_of_dvd _ (Nat.pow_dvd_pow 2 (Nat.le_of_lt capacity.exponent_lt))]

/-- Two positions less than one lap apart have different slots. -/
theorem slotOf_ne (hlt : p < q) (hlap : q < p + capacity.value.toNat) :
    slotOf capacity (UInt64.ofNat p) ≠ slotOf capacity (UInt64.ofNat q) := by
  intro heq
  have hmod := congrArg UInt64.toNat heq
  rw [slotOf_ofNat, slotOf_ofNat] at hmod
  exact mod_ne_of_window hlt hlap hmod

/-- The distance of two indices is the distance of the positions, as long as they are at most one
lap apart. -/
theorem toNat_ofNat_sub (hle : p ≤ q) (hlap : q ≤ p + capacity.value.toNat) :
    (UInt64.ofNat q - UInt64.ofNat p).toNat = q - p := by
  have hlt := capacity.value.toNat_lt
  rw [UInt64.toNat_sub, UInt64.toNat_ofNat', UInt64.toNat_ofNat']
  omega

theorem ofNat_succ (p : Nat) : UInt64.ofNat p + 1 = UInt64.ofNat (p + 1) :=
  (UInt64.ofNat_add p 1).symm

end Indices

/-! ## The invariant -/

/-- What the producer knows at each place. -/
def ProducerInv (capacity : Capacity) (state : State Item) (history : History Item) :
    ProducerPc Item → Prop
  | .loadRead _ _ w => w = state.writeIdx
  | .writeSlot _ _ w => w = state.writeIdx ∧
      history.pushed.length < history.popped.length + capacity.value.toNat
  | .storeWrite _ item w => w = state.writeIdx ∧
      history.pushed.length < history.popped.length + capacity.value.toNat ∧
      state.slots (slotOf capacity w) = item
  | .returned false => history.sawFull = true
  | _ => True

/-- What the consumer knows at each place. -/
def ConsumerInv (state : State Item) (history : History Item) : ConsumerPc Item → Prop
  | .loadWrite _ r => r = state.readIdx
  | .readSlot _ r => r = state.readIdx ∧ history.popped.length < history.pushed.length
  | .storeRead _ r out => r = state.readIdx ∧
      history.pushed[history.popped.length]? = some out
  | .returned none => history.sawEmpty = true
  | _ => True

/-- The invariant of the ring. -/
structure RingInv (capacity : Capacity) (pair : State Item × History Item) : Prop where
  writeIdx : pair.1.writeIdx = UInt64.ofNat pair.2.pushed.length
  readIdx : pair.1.readIdx = UInt64.ofNat pair.2.popped.length
  order : pair.2.popped <+: pair.2.pushed
  bounded : pair.2.pushed.length ≤ pair.2.popped.length + capacity.value.toNat
  slots : ∀ position, pair.2.popped.length ≤ position → position < pair.2.pushed.length →
    pair.2.pushed[position]? = some (pair.1.slots (slotOf capacity (UInt64.ofNat position)))
  producer : ProducerInv capacity pair.1 pair.2 pair.1.producer
  consumer : ConsumerInv pair.1 pair.2 pair.1.consumer

section Steps

variable {capacity : Capacity} {state next : State Item} {history : History Item}

/-- The queue is what the claims about it need. -/
theorem RingInv.fifo {pair : State Item × History Item} (h : RingInv capacity pair) :
    FifoAt capacity pair := by
  have hfree : ∀ order item w, pair.1.producer = .writeSlot order item w →
      ∀ position, pair.2.popped.length ≤ position → position < pair.2.pushed.length →
        slotOf capacity (UInt64.ofNat position) ≠ slotOf capacity w := by
    intro order item w hpc position hlow hhigh
    have hproducer := h.producer
    rw [hpc] at hproducer
    obtain ⟨rfl, hroom⟩ := hproducer
    rw [h.writeIdx]
    exact slotOf_ne hhigh (by omega)
  refine ⟨h.order, hfree, fun order item w hpc order' r hread => ?_, ?_, fun hpc => ?_,
    fun hpc => ?_⟩
  · have hconsumer := h.consumer
    rw [hread] at hconsumer
    obtain ⟨rfl, hsome⟩ := hconsumer
    rw [h.readIdx]
    exact (hfree order item w hpc _ (Nat.le_refl _) hsome).symm
  · have hbounded := h.bounded
    omega
  · have hproducer := h.producer
    rw [hpc] at hproducer
    exact hproducer
  · have hconsumer := h.consumer
    rw [hpc] at hconsumer
    exact hconsumer

/-- The consumer's facts outlive the steps of the producer. -/
theorem ConsumerInv.frame {pc : ConsumerPc Item} {state' : State Item} {history' : History Item}
    (h : ConsumerInv state history pc) (hread : state'.readIdx = state.readIdx)
    (hpopped : history'.popped = history.popped) (hpushed : history.pushed <+: history'.pushed)
    (hempty : history.sawEmpty = true → history'.sawEmpty = true) :
    ConsumerInv state' history' pc := by
  cases pc with
  | loadWrite order r => exact h.trans hread.symm
  | readSlot order r =>
      obtain ⟨hr, hsome⟩ := h
      exact ⟨hread ▸ hr, hpopped ▸ Nat.lt_of_lt_of_le hsome hpushed.length_le⟩
  | storeRead order r out =>
      obtain ⟨hr, hout⟩ := h
      obtain ⟨rest, hrest⟩ := hpushed
      refine ⟨hread ▸ hr, ?_⟩
      rw [← hrest, hpopped, List.getElem?_append_left (List.getElem?_eq_some_iff.mp hout).1]
      exact hout
  | returned result =>
      cases result with
      | none => exact hempty h
      | some out => trivial
  | _ => trivial

/-- The producer's facts outlive the steps of the consumer. -/
theorem ProducerInv.frame {pc : ProducerPc Item} {state' : State Item} {history' : History Item}
    (h : ProducerInv capacity state history pc) (hwrite : state'.writeIdx = state.writeIdx)
    (hslots : state'.slots = state.slots) (hpushed : history'.pushed = history.pushed)
    (hpopped : history.popped.length ≤ history'.popped.length)
    (hfull : history.sawFull = true → history'.sawFull = true) :
    ProducerInv capacity state' history' pc := by
  cases pc with
  | loadRead order item w => exact h.trans hwrite.symm
  | writeSlot order item w =>
      obtain ⟨hw, hroom⟩ := h
      exact ⟨hwrite ▸ hw, hpushed ▸ Nat.lt_of_lt_of_le hroom (Nat.add_le_add_right hpopped _)⟩
  | storeWrite order item w =>
      obtain ⟨hw, hroom, hslot⟩ := h
      exact ⟨hwrite ▸ hw, hpushed ▸ Nat.lt_of_lt_of_le hroom (Nat.add_le_add_right hpopped _),
        hslots ▸ hslot⟩
  | returned result =>
      cases result with
      | false => exact hfull h
      | true => trivial
  | _ => trivial

/-- The producer moves and leaves the items where they are. -/
theorem RingInv.producer_moves (h : RingInv capacity (state, history))
    {history' : History Item} {pc' : ProducerPc Item} (hpushed : history'.pushed = history.pushed)
    (hpopped : history'.popped = history.popped)
    (hempty : history.sawEmpty = true → history'.sawEmpty = true)
    (hproducer : ProducerInv capacity state history' pc') :
    RingInv capacity ({ state with producer := pc' }, history') := by
  refine ⟨hpushed ▸ h.writeIdx, hpopped ▸ h.readIdx, hpushed ▸ hpopped ▸ h.order,
    hpushed ▸ hpopped ▸ h.bounded, hpushed ▸ hpopped ▸ h.slots, ?_,
    h.consumer.frame rfl hpopped (hpushed ▸ List.prefix_refl _) hempty⟩
  cases pc' <;> exact hproducer

/-- The consumer moves and leaves the items where they are. -/
theorem RingInv.consumer_moves (h : RingInv capacity (state, history))
    {history' : History Item} {pc' : ConsumerPc Item} (hpushed : history'.pushed = history.pushed)
    (hpopped : history'.popped = history.popped)
    (hfull : history.sawFull = true → history'.sawFull = true)
    (hconsumer : ConsumerInv state history' pc') :
    RingInv capacity ({ state with consumer := pc' }, history') := by
  refine ⟨hpushed ▸ h.writeIdx, hpopped ▸ h.readIdx, hpushed ▸ hpopped ▸ h.order,
    hpushed ▸ hpopped ▸ h.bounded, hpushed ▸ hpopped ▸ h.slots,
    h.producer.frame rfl rfl hpushed (hpopped ▸ Nat.le_refl _) hfull, ?_⟩
  cases pc' <;> exact hconsumer

/-- A flag that is set stays set. -/
theorem or_of_set {flag more : Bool} (h : flag = true) : (flag || more) = true := by
  simp [h]

/-- An access of `TryPush` keeps the invariant. -/
theorem RingInv.push_access (h : RingInv capacity (state, history))
    (hstep : pushAccess capacity state = some next) :
    RingInv capacity (next, (recorder capacity).observe state .pushAccess next history) := by
  have hproducer : ProducerInv capacity state history state.producer := h.producer
  unfold pushAccess at hstep
  simp only [recorder, recordItems]
  cases hpc : state.producer with
  | idle | returned => simp [hpc] at hstep
  | loadWrite order item =>
      simp only [hpc, Option.some.injEq] at hstep ⊢
      subst hstep
      exact h.producer_moves rfl rfl or_of_set rfl
  | loadRead order item w =>
      simp only [hpc] at hstep hproducer ⊢
      obtain rfl : w = state.writeIdx := hproducer
      have hdistance : (state.writeIdx - state.readIdx).toNat =
          history.pushed.length - history.popped.length := by
        rw [h.writeIdx, h.readIdx]
        exact toNat_ofNat_sub h.order.length_le h.bounded
      have hbounded : history.pushed.length ≤
          history.popped.length + capacity.value.toNat := h.bounded
      simp only [ge_iff_le, UInt64.le_iff_toNat_le, hdistance] at hstep
      split at hstep
      · next hfull =>
          obtain rfl := Option.some.inj hstep
          refine h.producer_moves rfl rfl or_of_set ?_
          have heq : history.full capacity = true := by
            simp only [History.full, beq_iff_eq]
            omega
          simp [ProducerInv, ProducerPc.calling, heq]
      · next hroom =>
          obtain rfl := Option.some.inj hstep
          refine h.producer_moves rfl rfl or_of_set ⟨rfl, ?_⟩
          change history.pushed.length < history.popped.length + capacity.value.toNat
          omega
  | writeSlot order item w =>
      simp only [hpc, Option.some.injEq] at hstep hproducer ⊢
      subst hstep
      obtain ⟨rfl, hroom⟩ := hproducer
      refine ⟨h.writeIdx, h.readIdx, h.order, h.bounded, fun position hlow hhigh => ?_,
        ⟨rfl, hroom, Function.update_self _ _ _⟩,
        h.consumer.frame rfl rfl (List.prefix_refl _) or_of_set⟩
      -- The slot is the slot of no pending item.
      have hlap : history.pushed.length < position + capacity.value.toNat :=
        Nat.lt_of_lt_of_le hroom (Nat.add_le_add_right hlow _)
      have hne : slotOf capacity (UInt64.ofNat position) ≠ slotOf capacity state.writeIdx :=
        h.writeIdx ▸ slotOf_ne hhigh hlap
      simp only [Function.update_of_ne hne]
      exact h.slots position hlow hhigh
  | storeWrite order item w =>
      simp only [hpc, Option.some.injEq] at hstep hproducer ⊢
      subst hstep
      obtain ⟨rfl, hroom, hslot⟩ := hproducer
      refine ⟨?_, h.readIdx, h.order.trans (List.prefix_append _ _), ?_,
        fun position hlow hhigh => ?_, trivial,
        h.consumer.frame rfl rfl (List.prefix_append _ _) or_of_set⟩
      · rw [h.writeIdx, ofNat_succ]
        simp
      · simpa using Nat.succ_le_of_lt hroom
      · change position < (history.pushed ++ [item]).length at hhigh
        rw [List.length_append, List.length_singleton] at hhigh
        change history.popped.length ≤ position at hlow
        by_cases hlast : position = history.pushed.length
        · subst hlast
          rw [List.getElem?_concat_length, ← hslot, h.writeIdx]
        · rw [List.getElem?_append_left (by omega)]
          exact h.slots position hlow (Nat.lt_of_le_of_ne (Nat.le_of_lt_succ hhigh) hlast)

/-- The next pushed item extends a list of popped items. -/
theorem prefix_concat_of_getElem? {popped pushed : List Item} {out : Item}
    (h : popped <+: pushed) (hnext : pushed[popped.length]? = some out) :
    popped ++ [out] <+: pushed := by
  obtain ⟨rest, rfl⟩ := h
  cases rest with
  | nil => simp at hnext
  | cons first rest =>
      obtain rfl : first = out := by simpa using hnext
      exact ⟨rest, by simp⟩

/-- An access of `TryPop` keeps the invariant. -/
theorem RingInv.pop_access (h : RingInv capacity (state, history))
    (hstep : popAccess capacity state = some next) :
    RingInv capacity (next, (recorder capacity).observe state .popAccess next history) := by
  have hconsumer : ConsumerInv state history state.consumer := h.consumer
  unfold popAccess at hstep
  simp only [recorder, recordItems]
  cases hpc : state.consumer with
  | idle | returned => simp [hpc] at hstep
  | loadRead order =>
      simp only [hpc, Option.some.injEq] at hstep ⊢
      subst hstep
      exact h.consumer_moves rfl rfl or_of_set rfl
  | loadWrite order r =>
      simp only [hpc] at hstep hconsumer ⊢
      obtain rfl : r = state.readIdx := hconsumer
      have hle : history.popped.length ≤ history.pushed.length := h.order.length_le
      have hdistance : (state.writeIdx - state.readIdx).toNat =
          history.pushed.length - history.popped.length := by
        rw [h.writeIdx, h.readIdx]
        exact toNat_ofNat_sub hle h.bounded
      split at hstep
      · next hsame =>
          obtain rfl := Option.some.inj hstep
          refine h.consumer_moves rfl rfl or_of_set ?_
          have heq : history.empty = true := by
            rw [hsame, UInt64.sub_self] at hdistance
            simp [History.empty, ← hdistance]
          simp [ConsumerInv, ConsumerPc.calling, heq]
      · next hdiffer =>
          obtain rfl := Option.some.inj hstep
          refine h.consumer_moves rfl rfl or_of_set ⟨rfl, ?_⟩
          refine Nat.lt_of_le_of_ne hle fun hlength => hdiffer ?_
          rw [h.readIdx, h.writeIdx]
          exact congrArg UInt64.ofNat hlength
  | readSlot order r =>
      simp only [hpc, Option.some.injEq] at hstep hconsumer ⊢
      subst hstep
      obtain ⟨rfl, hsome⟩ := hconsumer
      refine h.consumer_moves rfl rfl or_of_set ⟨rfl, ?_⟩
      rw [h.readIdx]
      exact h.slots _ (Nat.le_refl _) hsome
  | storeRead order r out =>
      simp only [hpc, Option.some.injEq] at hstep hconsumer ⊢
      subst hstep
      obtain ⟨rfl, hout⟩ := hconsumer
      have hlength : (history.popped ++ [out]).length = history.popped.length + 1 := by simp
      refine ⟨h.writeIdx, ?_, prefix_concat_of_getElem? h.order hout, ?_,
        fun position hlow hhigh => ?_,
        h.producer.frame rfl rfl rfl (by simp) or_of_set, trivial⟩
      · rw [h.readIdx, ofNat_succ]
        simp
      · have hbounded : history.pushed.length ≤
            history.popped.length + capacity.value.toNat := h.bounded
        simp only [hlength]
        omega
      · have hafter : history.popped.length + 1 ≤ position := hlength ▸ hlow
        exact h.slots position (Nat.le_of_succ_le hafter) hhigh

/-- Every step keeps the invariant. -/
theorem RingInv.step {pair final : State Item × History Item} {event : Event Item}
    (h : RingInv capacity pair)
    (hstep : ((spscRing Item capacity).withHistory (recorder capacity)).step pair event =
      some final) : RingInv capacity final := by
  obtain ⟨state, history⟩ := pair
  obtain ⟨next, history'⟩ := final
  obtain ⟨hnext, hhistory⟩ := System.withHistory_step.mp hstep
  obtain rfl : history' = (recorder capacity).observe state event next history := hhistory
  cases event with
  | tryPush order item =>
      simp only [spscRing, StoreBuffer.step] at hnext
      split at hnext
      · obtain rfl := Option.some.inj hnext
        exact h.producer_moves rfl rfl or_of_set trivial
      · obtain rfl := Option.some.inj hnext
        exact h.producer_moves rfl rfl or_of_set trivial
      · cases hnext
  | pushAccess => exact h.push_access hnext
  | tryPop order =>
      simp only [spscRing, StoreBuffer.step] at hnext
      split at hnext
      · obtain rfl := Option.some.inj hnext
        exact h.consumer_moves rfl rfl or_of_set trivial
      · obtain rfl := Option.some.inj hnext
        exact h.consumer_moves rfl rfl or_of_set trivial
      · cases hnext
  | popAccess => exact h.pop_access hnext

end Steps

/-- The ring is a bounded queue, for every capacity that is a power of two and any number of
operations. -/
theorem bounded_fifo (Item : Type) (capacity : Capacity) : BoundedFifo Item capacity := by
  intro pair hreach
  have hinv : RingInv capacity pair := by
    refine hreach.invariant (RingInv capacity) ?_ fun _ _ _ h _ hstep => h.step hstep
    intro ⟨state, history⟩ ⟨⟨hwrite, hread, hproducer, hconsumer⟩, hhistory⟩
    obtain rfl : history = (recorder capacity).start state := hhistory
    refine ⟨hwrite, hread, List.prefix_refl _, Nat.zero_le _, fun position _ hhigh => ?_, ?_, ?_⟩
    · exact absurd hhigh (Nat.not_lt_zero _)
    · exact hproducer ▸ trivial
    · exact hconsumer ▸ trivial
  exact hinv.fifo

end HotPath.StoreBuffer
