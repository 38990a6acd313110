import HotPath.Foundation.StoreBuffers
import HotPath.StoreBuffer.SpscRing

/-!
# The stores of a ring in program order

A producer fills the slots of a ring word by word and then publishes each by a store of the write
index. `ringStores` lists these stores for the items pushed so far. The consumer stores the read
index alone.

`ringStores_cut` says what a prefix of the producer's stores is: the stores of the first
items, and some words of the item after them. So whoever has seen the index of an item has seen
all its words, and the stores that are still to come are at later positions.
-/

namespace HotPath.StoreBuffer.Tso

open HotPath.Foundation

/-- The words of a ring whose items have some number of words. -/
inductive Address (words : Nat) where
  | writeIdx
  | readIdx
  | slot (index : UInt64) (word : Fin words)
  deriving DecidableEq

/-- The two threads. -/
inductive Party where
  | producer
  | consumer
  deriving DecidableEq

/-- An item, as the words that a copy of it moves. -/
abbrev Item (words : Nat) := Fin words → UInt64

/-- Who stores at an address. -/
def owner {words : Nat} : Address words → Party
  | .readIdx => .consumer
  | .writeIdx | .slot _ _ => .producer

/-- What is in memory before the first operation. Both indices are 0, the slots hold anything. -/
def initial {words : Nat} (slots : UInt64 → Item words) : Address words → UInt64
  | .writeIdx | .readIdx => 0
  | .slot index word => slots index word

variable {words : Nat} {capacity : Capacity}

@[simp] theorem owner_writeIdx : owner (.writeIdx : Address words) = .producer := rfl

@[simp] theorem owner_readIdx : owner (.readIdx : Address words) = .consumer := rfl

@[simp] theorem owner_slot (index : UInt64) (word : Fin words) :
    owner (.slot index word) = .producer := rfl

/-- The stores that fill the slot of a position. -/
def slotStores (capacity : Capacity) (position : Nat) (item : Item words) :
    List (Address words × UInt64) :=
  (List.finRange words).map fun word =>
    (.slot (slotOf capacity (UInt64.ofNat position)) word, item word)

/-- The store of the write index after the item of a position. -/
def publish (words position : Nat) : Address words × UInt64 :=
  (.writeIdx, UInt64.ofNat (position + 1))

/-- The stores of the producer for some items, the first of them at a position. -/
def ringStores (capacity : Capacity) : Nat → List (Item words) → List (Address words × UInt64)
  | _, [] => []
  | position, item :: rest => slotStores capacity position item ++
      publish words position :: ringStores capacity (position + 1) rest

/-- The stores of the consumer for some number of items. -/
def readStores (words count : Nat) : List (Address words × UInt64) :=
  (List.range count).map fun position => (.readIdx, UInt64.ofNat (position + 1))

/-! ## One slot -/

theorem mem_slotStores {position : Nat} {item : Item words} {store : Address words × UInt64}
    (h : store ∈ slotStores capacity position item) :
    ∃ word, store.1 = .slot (slotOf capacity (UInt64.ofNat position)) word := by
  obtain ⟨word, -, rfl⟩ := List.mem_map.mp h
  exact ⟨word, rfl⟩

/-- The stores of an item leave its words in the slot. -/
theorem newest_slotStores (position : Nat) (item : Item words) (word : Fin words) (old : UInt64) :
    newest (slotStores capacity position item)
      (.slot (slotOf capacity (UInt64.ofNat position)) word) old = item word := by
  refine newest_map (fun word => Address.slot (slotOf capacity (UInt64.ofNat position)) word) item
    ?_ (.inl (List.mem_finRange word))
  intro first second heq
  injection heq with _ hword
  rw [hword]

/-- The first words of an item, and the next one. -/
theorem slotStores_take_succ {position count : Nat} (item : Item words) (h : count < words) :
    (slotStores capacity position item).take (count + 1) =
      (slotStores capacity position item).take count ++
        [(.slot (slotOf capacity (UInt64.ofNat position)) ⟨count, h⟩, item ⟨count, h⟩)] := by
  rw [List.take_add_one]
  simp [slotStores, h]

theorem slotStores_take_words (position : Nat) (item : Item words) :
    (slotStores capacity position item).take words = slotStores capacity position item := by
  refine List.take_of_length_le ?_
  simp [slotStores]

/-! ## All the items -/

theorem ringStores_append (position : Nat) (first second : List (Item words)) :
    ringStores capacity position (first ++ second) =
      ringStores capacity position first ++
        ringStores capacity (position + first.length) second := by
  induction first generalizing position with
  | nil => rfl
  | cons item rest ih =>
      simp only [List.cons_append, ringStores, ih, List.append_assoc, List.length_cons]
      rw [Nat.add_right_comm, Nat.add_assoc position]

theorem ringStores_concat (items : List (Item words)) (item : Item words) :
    ringStores capacity 0 (items ++ [item]) =
      ringStores capacity 0 items ++
        (slotStores capacity items.length item ++ [publish words items.length]) := by
  rw [ringStores_append, Nat.zero_add]
  rfl

/-- The stores are to the index or to the slots of positions in a range. -/
def Within (capacity : Capacity) (low high : Nat) (stores : List (Address words × UInt64)) :
    Prop :=
  ∀ store ∈ stores, store.1 = .writeIdx ∨ ∃ position word, low ≤ position ∧ position < high ∧
    store.1 = .slot (slotOf capacity (UInt64.ofNat position)) word

theorem Within.append {low high : Nat} {first second : List (Address words × UInt64)}
    (hfirst : Within capacity low high first) (hsecond : Within capacity low high second) :
    Within capacity low high (first ++ second) := by
  intro store hmem
  cases List.mem_append.mp hmem with
  | inl h => exact hfirst store h
  | inr h => exact hsecond store h

theorem Within.mono {low low' high high' : Nat} {stores : List (Address words × UInt64)}
    (h : Within capacity low high stores) (hlow : low' ≤ low) (hhigh : high ≤ high') :
    Within capacity low' high' stores := by
  intro store hmem
  cases h store hmem with
  | inl hindex => exact .inl hindex
  | inr hslot =>
      obtain ⟨position, word, hle, hlt, heq⟩ := hslot
      exact .inr ⟨position, word, by omega, by omega, heq⟩

theorem within_slotStores (position : Nat) (item : Item words) :
    Within capacity position (position + 1) (slotStores capacity position item) := by
  intro store hmem
  obtain ⟨word, hword⟩ := mem_slotStores hmem
  exact .inr ⟨position, word, Nat.le_refl _, Nat.lt_succ_self _, hword⟩

theorem Within.publish_cons {low high : Nat} {stores : List (Address words × UInt64)}
    (h : Within capacity low high stores) (position : Nat) :
    Within capacity low high (publish words position :: stores) := by
  intro store hmem
  cases List.mem_cons.mp hmem with
  | inl heq => exact .inl (heq ▸ rfl)
  | inr hrest => exact h store hrest

theorem within_ringStores (position : Nat) (items : List (Item words)) :
    Within capacity position (position + items.length) (ringStores capacity position items) := by
  induction items generalizing position with
  | nil =>
      intro store hmem
      cases hmem
  | cons item rest ih =>
      have hlength : (item :: rest).length = rest.length + 1 := rfl
      refine Within.append ((within_slotStores position item).mono (Nat.le_refl _) (by omega)) ?_
      exact ((ih (position + 1)).mono (by omega) (by omega)).publish_cons position

/-- Stores at later positions, less than a lap away, are not to the slot of a position. -/
theorem Within.ne_slot {low high position : Nat} {stores : List (Address words × UInt64)}
    (h : Within capacity low high stores) (hlow : position < low)
    (hhigh : high ≤ position + capacity.value.toNat) {store : Address words × UInt64}
    (hmem : store ∈ stores) (word : Fin words) :
    store.1 ≠ .slot (slotOf capacity (UInt64.ofNat position)) word := by
  intro heq
  cases h store hmem with
  | inl hindex =>
      rw [hindex] at heq
      cases heq
  | inr hslot =>
      obtain ⟨later, word', hle, hlt, hstore⟩ := hslot
      rw [hstore] at heq
      injection heq with hindex _
      exact slotOf_ne (by omega) (by omega) hindex.symm

/-- The stores of the items leave their number in the write index. -/
theorem newest_ringStores_writeIdx (capacity : Capacity) (position : Nat)
    (items : List (Item words)) :
    newest (ringStores capacity position items) .writeIdx (UInt64.ofNat position) =
      UInt64.ofNat (position + items.length) := by
  induction items generalizing position with
  | nil => rfl
  | cons item rest ih =>
      have hslot : newest (slotStores capacity position item) .writeIdx (UInt64.ofNat position) =
          UInt64.ofNat position := by
        refine newest_of_ne fun store hmem heq => ?_
        obtain ⟨word, hword⟩ := mem_slotStores hmem
        rw [hword] at heq
        cases heq
      rw [ringStores, newest_append, hslot]
      show newest (ringStores capacity (position + 1) rest) .writeIdx
        (UInt64.ofNat (position + 1)) = _
      rw [ih, List.length_cons, Nat.add_assoc, Nat.add_comm 1]

/-- The stores of the items leave each item in its slot until the position one lap later. -/
theorem newest_ringStores_slot {start position : Nat} {items : List (Item words)}
    {item : Item words} (hitem : items[position - start]? = some item) (hle : start ≤ position)
    (hlap : start + items.length ≤ position + capacity.value.toNat) (word : Fin words)
    (old : UInt64) :
    newest (ringStores capacity start items)
      (.slot (slotOf capacity (UInt64.ofNat position)) word) old = item word := by
  induction items generalizing start old with
  | nil => simp at hitem
  | cons first rest ih =>
      rw [List.length_cons] at hlap
      rw [ringStores, newest_append]
      by_cases heq : start = position
      · subst heq
        obtain rfl : first = item := by simpa using hitem
        rw [newest_slotStores]
        have hlater : Within capacity (start + 1) (start + 1 + rest.length)
            (publish words start :: ringStores capacity (start + 1) rest) :=
          (within_ringStores (start + 1) rest).publish_cons start
        exact newest_of_ne fun store hmem =>
          hlater.ne_slot (Nat.lt_succ_self _) (by omega) hmem word
      · have hnext : position - start = position - (start + 1) + 1 := by omega
        rw [hnext, List.getElem?_cons_succ] at hitem
        exact ih hitem (by omega) (by omega) _

/-! ## Prefixes -/

/-- The number of items whose index store is in the list. -/
def published (stores : List (Address words × UInt64)) : Nat :=
  stores.countP fun store => store.1 = .writeIdx

theorem published_append (first second : List (Address words × UInt64)) :
    published (first ++ second) = published first + published second :=
  List.countP_append

theorem published_eq_zero {stores : List (Address words × UInt64)}
    (h : ∀ store ∈ stores, store.1 ≠ .writeIdx) : published stores = 0 := by
  refine List.countP_eq_zero.mpr fun store hmem => ?_
  simpa using h store hmem

theorem slotStores_ne_writeIdx {position : Nat} {item : Item words}
    {store : Address words × UInt64} (h : store ∈ slotStores capacity position item) :
    store.1 ≠ .writeIdx := by
  intro hindex
  obtain ⟨word, hword⟩ := mem_slotStores h
  rw [hword] at hindex
  cases hindex

theorem published_publish_cons (position : Nat) (stores : List (Address words × UInt64)) :
    published (publish words position :: stores) = published stores + 1 := by
  rw [published, List.countP_cons_of_pos (by simp [publish])]
  rfl

theorem published_ringStores (position : Nat) (items : List (Item words)) :
    published (ringStores capacity position items) = items.length := by
  induction items generalizing position with
  | nil => rfl
  | cons item rest ih =>
      rw [ringStores, published_append, published_publish_cons, ih,
        published_eq_zero fun store hmem => slotStores_ne_writeIdx hmem, Nat.zero_add]
      rfl

/-- A prefix of the stores of the items, followed by some words of the item after them, are the
stores of the first items and words of the next one. What is left is at later positions. -/
theorem ringStores_cut {start limit : Nat} {items : List (Item words)}
    {seen later tail : List (Address words × UInt64)}
    (heq : seen ++ later = ringStores capacity start items ++ tail)
    (htail : Within capacity (start + items.length) limit tail)
    (hwords : ∀ store ∈ tail, store.1 ≠ .writeIdx) (hlimit : start + items.length ≤ limit) :
    published seen ≤ items.length ∧ ∃ part,
      seen = ringStores capacity start (items.take (published seen)) ++ part ∧
      (∀ store ∈ part, store.1 ≠ .writeIdx) ∧
      Within capacity (start + published seen) limit (part ++ later) := by
  induction items generalizing start seen with
  | nil =>
      have hnone : ∀ store ∈ seen, store.1 ≠ .writeIdx := by
        intro store hmem
        refine hwords store ?_
        rw [← show seen ++ later = tail from heq]
        exact List.mem_append_left _ hmem
      rw [published_eq_zero hnone]
      refine ⟨Nat.le_refl _, seen, rfl, hnone, ?_⟩
      rw [show seen ++ later = tail from heq]
      exact htail
  | cons item rest ih =>
      rw [List.length_cons] at htail hlimit
      have hall : Within capacity start limit (seen ++ later) := by
        rw [heq]
        refine Within.append ?_ (htail.mono (by omega) (Nat.le_refl _))
        exact (within_ringStores start (item :: rest)).mono (Nat.le_refl _) (by simpa using hlimit)
      have hsplit : seen ++ later = slotStores capacity start item ++
          (publish words start :: (ringStores capacity (start + 1) rest ++ tail)) := by
        rw [heq, ringStores, List.append_assoc, List.cons_append]
      -- What holds while the index of the first item has not been seen.
      have hearly : (∀ store ∈ seen, store.1 ≠ .writeIdx) →
          published seen ≤ (item :: rest).length ∧ ∃ part,
            seen = ringStores capacity start ((item :: rest).take (published seen)) ++ part ∧
            (∀ store ∈ part, store.1 ≠ .writeIdx) ∧
            Within capacity (start + published seen) limit (part ++ later) := by
        intro hnone
        rw [published_eq_zero hnone]
        exact ⟨Nat.zero_le _, seen, rfl, hnone, hall⟩
      rcases List.append_eq_append_iff.mp hsplit with ⟨middle, hslot, -⟩ | ⟨middle, hseen, hrest⟩
      · exact hearly fun store hmem =>
          slotStores_ne_writeIdx (hslot ▸ List.mem_append_left middle hmem)
      · cases middle with
        | nil =>
            rw [List.append_nil] at hseen
            exact hearly fun store hmem => slotStores_ne_writeIdx (hseen ▸ hmem)
        | cons first more =>
            rw [List.cons_append] at hrest
            obtain ⟨rfl, hmore⟩ := List.cons.inj hrest
            obtain ⟨hcount, part, hpart, hpartWords, hwithin⟩ := ih
              hmore.symm (htail.mono (by omega) (Nat.le_refl _)) (by omega)
            have hone : published seen = published more + 1 := by
              rw [hseen, published_append, published_publish_cons,
                published_eq_zero fun store hmem => slotStores_ne_writeIdx hmem, Nat.zero_add]
            rw [hone]
            refine ⟨Nat.succ_le_succ hcount, part, ?_, hpartWords,
              hwithin.mono (by omega) (Nat.le_refl _)⟩
            rw [List.take_succ_cons, ringStores, List.append_assoc, List.cons_append, ← hpart,
              ← hseen]

section Seen

variable {limit : Nat} {items : List (Item words)}
  {seen later tail : List (Address words × UInt64)}
  (heq : seen ++ later = ringStores capacity 0 items ++ tail)
  (htail : Within capacity items.length limit tail)
  (hwords : ∀ store ∈ tail, store.1 ≠ .writeIdx) (hlimit : items.length ≤ limit)

include heq htail hwords hlimit

theorem published_le : published seen ≤ items.length := by
  rw [← Nat.zero_add items.length] at htail hlimit
  exact (ringStores_cut heq htail hwords hlimit).1

/-- The write index that has been seen is the number of the published items. -/
theorem newest_seen_writeIdx : newest seen .writeIdx 0 = UInt64.ofNat (published seen) := by
  rw [← Nat.zero_add items.length] at htail hlimit
  obtain ⟨hle, part, hpart, hpartWords, -⟩ := ringStores_cut heq htail hwords hlimit
  have hindex := newest_ringStores_writeIdx capacity 0 (items.take (published seen))
  rw [Nat.zero_add, List.length_take, Nat.min_eq_left hle] at hindex
  rw [hpart, newest_append, newest_of_ne hpartWords, ← hpart]
  exact hindex

/-- The slot of a published item holds it as long as every position that is written is less than
a lap later. -/
theorem newest_seen_slot {position : Nat} {item : Item words}
    (hitem : items[position]? = some item) (hseen : position < published seen)
    (hlap : limit ≤ position + capacity.value.toNat) (word : Fin words) (old : UInt64) :
    newest seen (.slot (slotOf capacity (UInt64.ofNat position)) word) old = item word := by
  rw [← Nat.zero_add items.length] at htail hlimit
  obtain ⟨hle, part, hpart, -, hwithin⟩ := ringStores_cut heq htail hwords hlimit
  have hleft : Within capacity (0 + published seen) limit part :=
    fun store hmem => hwithin store (List.mem_append_left _ hmem)
  rw [hpart, newest_append, newest_of_ne fun store hmem =>
    hleft.ne_slot (by omega) hlap hmem word]
  refine newest_ringStores_slot ?_ (Nat.zero_le _) ?_ word old
  · rw [Nat.sub_zero, List.getElem?_take_of_lt hseen]
    exact hitem
  · rw [List.length_take, Nat.min_eq_left hle]
    omega

/-- The stores that have not been seen are at the positions of items that are not published. -/
theorem within_later : Within capacity (published seen) limit later := by
  rw [← Nat.zero_add items.length] at htail hlimit
  obtain ⟨-, part, -, -, hwithin⟩ := ringStores_cut heq htail hwords hlimit
  rw [Nat.zero_add] at hwithin
  exact fun store hmem => hwithin store (List.mem_append_right _ hmem)

end Seen

/-- A prefix of the stores of the read index leaves the number of its stores there. -/
theorem readStores_cut {count : Nat} {seen later : List (Address words × UInt64)}
    (h : seen ++ later = readStores words count) :
    seen.length ≤ count ∧ newest seen .readIdx 0 = UInt64.ofNat seen.length := by
  have hlength : seen.length ≤ count := by
    have htotal := congrArg List.length h
    simp only [List.length_append, readStores, List.length_map, List.length_range] at htotal
    omega
  have htake : seen = readStores words seen.length := by
    have hcut : seen = (readStores words count).take seen.length := by
      rw [← h, List.take_left]
    rw [hcut, readStores, ← List.map_take, List.take_range, Nat.min_eq_left hlength]
    simp [readStores]
  refine ⟨hlength, ?_⟩
  rw [htake]
  generalize seen.length = size
  induction size with
  | zero => simp [readStores]
  | succ size ih =>
      rw [readStores, List.range_succ, List.map_append]
      show newest (_ ++ [(Address.readIdx, UInt64.ofNat (size + 1))]) _ _ = _
      rw [newest_concat, if_pos rfl]
      simp

end HotPath.StoreBuffer.Tso
