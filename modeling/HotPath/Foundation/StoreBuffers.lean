import Mathlib.Data.List.Basic
import Mathlib.Logic.Function.Basic

/-!
# Store buffers

The memory model of x86 processors (total store order). Every thread has a FIFO buffer of stores
that have not reached memory. A load takes the newest store to its address from the thread's own
buffer, and otherwise what is in memory. A locked instruction waits until the buffer is empty and
then works on memory.

`Traced` is the rule for addresses that one thread owns, in the sense that nobody else stores
there. What has reached memory is a prefix of the owner's stores in program order, and it is one
prefix for all the addresses of that owner.
-/

namespace HotPath.Foundation

/-- Memory, and the stores of each thread that have not reached it, oldest first. -/
structure Buffered (Thread Addr Value : Type*) where
  memory : Addr → Value
  buffers : Thread → List (Addr × Value)

variable {Thread Addr Value : Type*}

section Newest

variable [DecidableEq Addr]

/-- The value at an address after some stores. -/
def newest (stores : List (Addr × Value)) (addr : Addr) (old : Value) : Value :=
  stores.foldl (fun value store => if store.1 = addr then store.2 else value) old

variable {stores : List (Addr × Value)} {addr : Addr} {old : Value}

@[simp] theorem newest_nil : newest ([] : List (Addr × Value)) addr old = old := rfl

theorem newest_append (first second : List (Addr × Value)) :
    newest (first ++ second) addr old = newest second addr (newest first addr old) :=
  List.foldl_append

theorem newest_concat (store : Addr × Value) :
    newest (stores ++ [store]) addr old =
      if store.1 = addr then store.2 else newest stores addr old := by
  rw [newest_append]
  rfl

/-- Stores to other addresses do not change the value. -/
theorem newest_of_ne (h : ∀ store ∈ stores, store.1 ≠ addr) : newest stores addr old = old := by
  induction stores with
  | nil => rfl
  | cons store rest ih =>
      have hne : store.1 ≠ addr := h store List.mem_cons_self
      show newest rest addr (if store.1 = addr then store.2 else old) = old
      rw [if_neg hne]
      exact ih fun other hmem => h other (List.mem_cons_of_mem _ hmem)

/-- Stores of a family of values, one for each index of a list, leave the value of every index in
the list. -/
theorem newest_map {Index : Type*} (place : Index → Addr) (value : Index → Value)
    (hsame : ∀ index other, place index = place other → value index = value other)
    {index : Index} {indices : List Index} {old : Value}
    (h : index ∈ indices ∨ old = value index) :
    newest (indices.map fun index => (place index, value index)) (place index) old =
      value index := by
  induction indices generalizing old with
  | nil =>
      cases h with
      | inl hmem => cases hmem
      | inr hold => exact hold
  | cons first rest ih =>
      show newest (rest.map fun index => (place index, value index)) (place index)
        (if place first = place index then value first else old) = value index
      refine ih ?_
      split
      · next heq => exact .inr (hsame first index heq)
      · next hne =>
          cases h with
          | inl hmem =>
              cases List.mem_cons.mp hmem with
              | inl heq => exact absurd (heq ▸ rfl) hne
              | inr hrest => exact .inl hrest
          | inr hold => exact .inr hold

end Newest

namespace Buffered

variable [DecidableEq Thread] [DecidableEq Addr]

/-- A load. -/
def load (m : Buffered Thread Addr Value) (thread : Thread) (addr : Addr) : Value :=
  newest (m.buffers thread) addr (m.memory addr)

/-- A store goes to the thread's buffer. -/
def store (m : Buffered Thread Addr Value) (thread : Thread) (addr : Addr) (value : Value) :
    Buffered Thread Addr Value :=
  { m with buffers := Function.update m.buffers thread (m.buffers thread ++ [(addr, value)]) }

/-- The oldest store of a thread reaches memory. -/
def drain (m : Buffered Thread Addr Value) (thread : Thread) :
    Option (Buffered Thread Addr Value) :=
  match m.buffers thread with
  | [] => none
  | (addr, value) :: rest => some
      { memory := Function.update m.memory addr value
        buffers := Function.update m.buffers thread rest }

/-- The buffer of the thread is empty. -/
def flushed (m : Buffered Thread Addr Value) (thread : Thread) : Bool :=
  (m.buffers thread).isEmpty

/-- A store by a locked instruction. It waits until the buffer is empty. -/
def exchange (m : Buffered Thread Addr Value) (thread : Thread) (addr : Addr) (value : Value) :
    Option (Buffered Thread Addr Value) :=
  if m.flushed thread then some { m with memory := Function.update m.memory addr value } else none

variable {m next : Buffered Thread Addr Value} {thread other : Thread} {addr : Addr}
  {value : Value}

omit [DecidableEq Thread] [DecidableEq Addr] in
theorem flushed_iff : m.flushed thread = true ↔ m.buffers thread = [] :=
  List.isEmpty_iff

omit [DecidableEq Addr] in
@[simp] theorem memory_store : (m.store thread addr value).memory = m.memory := rfl

omit [DecidableEq Addr] in
@[simp] theorem buffers_store_self :
    (m.store thread addr value).buffers thread = m.buffers thread ++ [(addr, value)] :=
  Function.update_self ..

omit [DecidableEq Addr] in
theorem buffers_store_of_ne (h : other ≠ thread) :
    (m.store thread addr value).buffers other = m.buffers other :=
  Function.update_of_ne h ..

omit [DecidableEq Thread] in
/-- A thread whose buffer is empty loads from memory. -/
theorem load_of_flushed (h : m.flushed thread = true) : m.load thread addr = m.memory addr := by
  rw [load, flushed_iff.mp h]
  rfl

/-- A thread loads what it stored last. -/
@[simp] theorem load_store_self : (m.store thread addr value).load thread addr = value := by
  rw [load, buffers_store_self, newest_concat, if_pos rfl]

/-- What a drain does. -/
theorem drain_eq_some (h : m.drain thread = some next) : ∃ addr value,
    m.buffers thread = (addr, value) :: next.buffers thread ∧
      next.memory = Function.update m.memory addr value ∧
      ∀ other, other ≠ thread → next.buffers other = m.buffers other := by
  unfold drain at h
  split at h
  · cases h
  · next addr value rest hbuffer =>
      obtain rfl := Option.some.inj h
      refine ⟨addr, value, ?_, rfl, fun other hne => Function.update_of_ne hne ..⟩
      rw [hbuffer]
      show _ = (addr, value) :: Function.update m.buffers thread rest thread
      rw [Function.update_self]

/-- Nothing but an empty buffer keeps a thread's stores from memory. -/
theorem drain_isSome (h : m.flushed thread = false) : ∃ next, m.drain thread = some next := by
  unfold drain
  cases hbuffer : m.buffers thread with
  | nil =>
      rw [flushed, hbuffer] at h
      cases h
  | cons store rest => exact ⟨_, rfl⟩

/-- A thread does not see its own drains. -/
theorem load_drain_self (h : m.drain thread = some next) :
    next.load thread addr = m.load thread addr := by
  obtain ⟨first, value, hbuffer, hmemory, -⟩ := drain_eq_some h
  rw [load, load, hbuffer, hmemory]
  show _ = newest (next.buffers thread) addr (if first = addr then value else m.memory addr)
  by_cases heq : first = addr
  · subst heq
    rw [Function.update_self, if_pos rfl]
  · rw [Function.update_of_ne (Ne.symm heq), if_neg heq]

omit [DecidableEq Thread] in
/-- What a locked store does. -/
theorem exchange_eq_some (h : m.exchange thread addr value = some next) :
    m.buffers thread = [] ∧ next = { m with memory := Function.update m.memory addr value } := by
  unfold exchange at h
  split at h
  · next hflushed => exact ⟨flushed_iff.mp hflushed, (Option.some.inj h).symm⟩
  · cases h

end Buffered

/-! ## Addresses with one owner -/

/-- Every address has an owner, who alone stores there. `seen` are the stores of each thread that
have reached memory, in program order. -/
structure Traced [DecidableEq Addr] (owner : Addr → Thread) (initial : Addr → Value)
    (m : Buffered Thread Addr Value) (seen : Thread → List (Addr × Value)) : Prop where
  owned : ∀ thread, ∀ store ∈ seen thread ++ m.buffers thread, owner store.1 = thread
  memory : ∀ addr, m.memory addr = newest (seen (owner addr)) addr (initial addr)

namespace Traced

variable [DecidableEq Thread] [DecidableEq Addr] {owner : Addr → Thread}
  {initial : Addr → Value} {m next : Buffered Thread Addr Value}
  {seen : Thread → List (Addr × Value)} {thread : Thread} {addr : Addr} {value : Value}

omit [DecidableEq Thread] in
theorem start : Traced owner initial ⟨initial, fun _ => []⟩ fun _ => [] where
  owned thread store h := by simp at h
  memory _ := rfl

omit [DecidableEq Thread] in
/-- An owner loads what its stores in program order leave. -/
theorem load_own (h : Traced owner initial m seen) (howner : owner addr = thread) :
    m.load thread addr = newest (seen thread ++ m.buffers thread) addr (initial addr) := by
  rw [Buffered.load, h.memory, howner, newest_append]

omit [DecidableEq Thread] in
/-- Everybody else loads what the owner's stores leave that have reached memory. -/
theorem load_other (h : Traced owner initial m seen) (hne : owner addr ≠ thread) :
    m.load thread addr = newest (seen (owner addr)) addr (initial addr) := by
  rw [Buffered.load, newest_of_ne, h.memory]
  intro store hmem heq
  have howner := h.owned thread store (List.mem_append_right _ hmem)
  rw [heq] at howner
  exact hne howner

/-- The owner of an address stores there. -/
theorem store (h : Traced owner initial m seen) (howner : owner addr = thread) :
    Traced owner initial (m.store thread addr value) seen where
  owned other store hmem := by
    by_cases heq : other = thread
    · subst heq
      rw [Buffered.buffers_store_self, ← List.append_assoc] at hmem
      cases List.mem_append.mp hmem with
      | inl hold => exact h.owned other store hold
      | inr hnew =>
          obtain rfl := List.mem_singleton.mp hnew
          exact howner
    · rw [Buffered.buffers_store_of_ne heq] at hmem
      exact h.owned other store hmem
  memory := h.memory

/-- The stores that have reached memory after one more of a thread. -/
def reach (seen : Thread → List (Addr × Value)) (thread : Thread) (store : Addr × Value) :
    Thread → List (Addr × Value) :=
  Function.update seen thread (seen thread ++ [store])

omit [DecidableEq Addr] in
theorem prefix_reach (seen : Thread → List (Addr × Value)) (thread other : Thread)
    (store : Addr × Value) : seen other <+: reach seen thread store other := by
  by_cases heq : other = thread
  · subst heq
    rw [reach, Function.update_self]
    exact List.prefix_append _ _
  · simp [reach, Function.update_of_ne heq]

theorem memory_reach (h : Traced owner initial m seen) (howner : owner addr = thread) :
    ∀ place, Function.update m.memory addr value place =
      newest (reach seen thread (addr, value) (owner place)) place (initial place) := by
  intro place
  by_cases heq : place = addr
  · subst heq
    rw [howner, reach, Function.update_self, Function.update_self, newest_concat, if_pos rfl]
  · rw [Function.update_of_ne heq, h.memory]
    by_cases hthread : owner place = thread
    · rw [hthread, reach, Function.update_self, newest_concat, if_neg (Ne.symm heq)]
    · rw [reach, Function.update_of_ne hthread]

/-- The oldest store of a thread reaches memory. What each thread has stored stays the same. -/
theorem drain (h : Traced owner initial m seen) (hdrain : m.drain thread = some next) :
    ∃ store, m.buffers thread = store :: next.buffers thread ∧
      Traced owner initial next (reach seen thread store) ∧
      ∀ other, reach seen thread store other ++ next.buffers other =
        seen other ++ m.buffers other := by
  obtain ⟨addr, value, hbuffer, hmemory, hothers⟩ := Buffered.drain_eq_some hdrain
  have hsame : ∀ other, reach seen thread (addr, value) other ++ next.buffers other =
      seen other ++ m.buffers other := by
    intro other
    by_cases heq : other = thread
    · subst heq
      rw [reach, Function.update_self, hbuffer, List.append_assoc]
      rfl
    · rw [reach, Function.update_of_ne heq, hothers other heq]
  have howner : owner addr = thread :=
    h.owned thread (addr, value) (List.mem_append_right _ (hbuffer ▸ List.mem_cons_self))
  refine ⟨(addr, value), hbuffer, ⟨fun other => ?_, fun place => ?_⟩, hsame⟩
  · rw [hsame]
    exact h.owned other
  · rw [hmemory]
    exact h.memory_reach howner place

/-- A locked store of the owner reaches memory at once. -/
theorem exchange (h : Traced owner initial m seen) (howner : owner addr = thread)
    (hexchange : m.exchange thread addr value = some next) :
    m.buffers thread = [] ∧ next.buffers = m.buffers ∧
      Traced owner initial next (reach seen thread (addr, value)) := by
  obtain ⟨hempty, rfl⟩ := Buffered.exchange_eq_some hexchange
  refine ⟨hempty, rfl, fun other store hmem => ?_, h.memory_reach howner⟩
  by_cases heq : other = thread
  · subst heq
    rw [reach, Function.update_self, hempty, List.append_nil] at hmem
    cases List.mem_append.mp hmem with
    | inl hold => exact h.owned other store (List.mem_append_left _ hold)
    | inr hnew =>
        obtain rfl := List.mem_singleton.mp hnew
        exact howner
  · rw [reach, Function.update_of_ne heq] at hmem
    exact h.owned other store hmem

end Traced

end HotPath.Foundation
