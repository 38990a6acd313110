import HotPath.Foundation.Transition
import Mathlib.Algebra.BigOperators.Fin
import Mathlib.Algebra.Order.BigOperators.Group.Finset
import Mathlib.Data.UInt

/-!
# Sums over shards

Threads add amounts to shards, and read the total by visiting the shards one after the other while
others go on adding. A total that is read in this way may never have been the total of all the
shards at once. It is still no less than what had been added for certain when the reading began,
no more than what may have been added when it ended, and no less than what the thread read before
(`consistent_of_reachable`).
-/

namespace HotPath.Foundation

/-- A sum changes by what one of its values changes. -/
theorem sum_update_add {ι α M : Type*} [Fintype ι] [DecidableEq ι] [AddCommMonoid M] (f : α → M)
    (values : ι → α) (i : ι) (value : α) :
    (∑ j, f (Function.update values i value j)) + f (values i) =
      (∑ j, f (values j)) + f value := by
  have hupdate : (fun j => f (Function.update values i value j)) =
      Function.update (fun j => f (values j)) i (f value) :=
    Function.comp_update f values i value
  rw [hupdate, Finset.sum_update_of_mem (Finset.mem_univ i),
    Finset.sum_eq_add_sum_sdiff_singleton_of_mem (Finset.mem_univ i) fun j => f (values j)]
  ac_rfl

/-- A sum one of whose terms changes. -/
theorem sum_add_eq_of_changed {ι M : Type*} [Fintype ι] [DecidableEq ι] [AddCommMonoid M]
    {before after : ι → M} (i : ι) (hother : ∀ j, j ≠ i → after j = before j) :
    ∑ j, after j + before i = ∑ j, before j + after i := by
  have hupdate : after = Function.update before i (after i) := by
    funext j
    by_cases heq : j = i
    · rw [heq, Function.update_self]
    · rw [Function.update_of_ne heq, hother j heq]
  have hsum := sum_update_add (fun value : M => value) before i (after i)
  rwa [← hupdate] at hsum

/-- A sum of words is the sum of their values, modulo the word size. -/
theorem ofNat_sum_toNat {ι : Type*} [Fintype ι] (words : ι → UInt64) :
    UInt64.ofNat (∑ i, (words i).toNat) = ∑ i, words i := by
  let wrap : ℕ →+ UInt64 :=
    { toFun := UInt64.ofNat, map_zero' := rfl, map_add' := UInt64.ofNat_add }
  have hsum := map_sum wrap (fun i => (words i).toNat) Finset.univ
  exact hsum.trans (Finset.sum_congr rfl fun i _ => UInt64.ofNat_toNat)

/-- The loop that adds the words of an array, when their sum fits in a word. -/
theorem toNat_foldl_add {n : Nat} {words : Fin n → UInt64} (h : ∑ i, (words i).toNat < 2 ^ 64) :
    ((List.ofFn words).foldl (· + ·) 0).toNat = ∑ i, (words i).toNat := by
  rw [← List.sum_eq_foldl, List.sum_ofFn, ← ofNat_sum_toNat, UInt64.toNat_ofNat_of_lt' h]

/-- The index that the low bits of a word select. -/
def maskedIndex (bits : Nat) (word : UInt64) : Fin (2 ^ bits) :=
  ⟨word.toNat &&& (2 ^ bits - 1),
    Nat.and_lt_two_pow _ (Nat.sub_lt (Nat.two_pow_pos bits) Nat.one_pos)⟩

/-! ## What is promised about the totals -/

/-- A total that a thread has read, with the sum of the additions that had returned when the
reading began and the sum of those that had been called when it ended. -/
structure Reading (Thread : Type) where
  thread : Thread
  finishedBefore : Nat
  total : Nat
  startedAfter : Nat
deriving DecidableEq

/-- What has happened so far: the sum of the additions that have been called, the sum of those that
have returned, this sum when the last reading of each thread began, and the totals read. -/
structure Tally (Thread : Type) where
  started : Nat := 0
  finished : Nat := 0
  begun : Thread → Nat := fun _ => 0
  readings : List (Reading Thread) := []

/-- The totals are between the bounds, and those of one thread never decrease. -/
structure Tally.Consistent {Thread : Type} (tally : Tally Thread) : Prop where
  bounds : ∀ reading ∈ tally.readings,
    reading.finishedBefore ≤ reading.total ∧ reading.total ≤ reading.startedAfter
  monotone : tally.readings.Pairwise fun first second =>
    first.thread = second.thread → first.total ≤ second.total

/-- A total that is read while nothing is added is the sum of the additions. -/
theorem Tally.Consistent.total_eq {Thread : Type} {tally : Tally Thread} (h : tally.Consistent)
    {reading : Reading Thread} (hmem : reading ∈ tally.readings)
    (hquiet : reading.finishedBefore = reading.startedAfter) :
    reading.total = reading.startedAfter :=
  Nat.le_antisymm (h.bounds reading hmem).2 (hquiet ▸ (h.bounds reading hmem).1)

section Tally

variable {Thread : Type} [DecidableEq Thread] (tally : Tally Thread)

/-- An addition is called. -/
def Tally.start (amount : Nat) : Tally Thread := { tally with started := tally.started + amount }

/-- An addition returns. -/
def Tally.finish (amount : Nat) : Tally Thread := { tally with finished := tally.finished + amount }

/-- A reading begins. -/
def Tally.beginReading (thread : Thread) : Tally Thread :=
  { tally with begun := Function.update tally.begun thread tally.finished }

/-- A reading returns its total. -/
def Tally.endReading (thread : Thread) (total : Nat) : Tally Thread :=
  { tally with
    readings := tally.readings ++ [⟨thread, tally.begun thread, total, tally.started⟩] }

end Tally

/-! ## The system -/

/-- Where a thread is. -/
inductive Phase (shards : Nat) where
  | idle
  | adding (shard : Fin shards) (amount : Nat)
  | added (amount : Nat)
  | reading (next sum : Nat)

/-- The shards, the threads and what has happened. -/
structure Sharded (Thread : Type) (shards : Nat) where
  count : Fin shards → Nat := fun _ => 0
  phase : Thread → Phase shards := fun _ => .idle
  tally : Tally Thread := {}

/-- A step of a thread. -/
inductive Move (Thread : Type) (shards : Nat) where
  | add (thread : Thread) (shard : Fin shards) (amount : Nat)
  | apply (thread : Thread)
  | finish (thread : Thread)
  | read (thread : Thread)
  | visit (thread : Thread)
  | total (thread : Thread)

variable {Thread : Type} [DecidableEq Thread] {shards : Nat}

/-- A thread goes on. -/
def Sharded.goto (state : Sharded Thread shards) (thread : Thread) (phase : Phase shards) :
    Sharded Thread shards :=
  { state with phase := Function.update state.phase thread phase }

/-- One step. -/
def Sharded.step (state : Sharded Thread shards) :
    Move Thread shards → Option (Sharded Thread shards)
  | .add thread shard amount =>
      match state.phase thread with
      | .idle => some { state.goto thread (.adding shard amount) with
          tally := state.tally.start amount }
      | _ => none
  | .apply thread =>
      match state.phase thread with
      | .adding shard amount => some { state.goto thread (.added amount) with
          count := Function.update state.count shard (state.count shard + amount) }
      | _ => none
  | .finish thread =>
      match state.phase thread with
      | .added amount => some { state.goto thread .idle with tally := state.tally.finish amount }
      | _ => none
  | .read thread =>
      match state.phase thread with
      | .idle => some { state.goto thread (.reading 0 0) with
          tally := state.tally.beginReading thread }
      | _ => none
  | .visit thread =>
      match state.phase thread with
      | .reading next sum =>
          if h : next < shards then
            some (state.goto thread (.reading (next + 1) (sum + state.count ⟨next, h⟩)))
          else none
      | _ => none
  | .total thread =>
      match state.phase thread with
      | .reading next sum =>
          if next < shards then none
          else some { state.goto thread .idle with tally := state.tally.endReading thread sum }
      | _ => none

/-- The system, in which nothing has been added at first. -/
def shardedSums (Thread : Type) [DecidableEq Thread] (shards : Nat) :
    System (Sharded Thread shards) (Move Thread shards) where
  init state := state = {}
  step := Sharded.step

/-! ## The parts of the sum -/

/-- The sum of the shards before one. -/
def seen (count : Fin shards → Nat) (next : Nat) : Nat :=
  ∑ shard, if shard.val < next then count shard else 0

/-- The sum of the shards from one on. -/
def unseen (count : Fin shards → Nat) (next : Nat) : Nat :=
  ∑ shard, if shard.val < next then 0 else count shard

section Parts

variable (count : Fin shards → Nat)

theorem unseen_zero : unseen count 0 = ∑ shard, count shard := by simp [unseen]

theorem unseen_all {next : Nat} (h : shards ≤ next) : unseen count next = 0 := by
  refine Finset.sum_eq_zero fun shard _ => if_pos ?_
  omega

theorem seen_le (next : Nat) : seen count next ≤ ∑ shard, count shard := by
  refine Finset.sum_le_sum fun shard _ => ?_
  split <;> omega

theorem seen_succ {next : Nat} (h : next < shards) :
    seen count (next + 1) = seen count next + count ⟨next, h⟩ := by
  have hone : ∑ shard, (if shard = ⟨next, h⟩ then count shard else 0) = count ⟨next, h⟩ := by simp
  rw [seen, seen, ← hone, ← Finset.sum_add_distrib]
  refine Finset.sum_congr rfl fun shard _ => ?_
  by_cases heq : shard = ⟨next, h⟩
  · subst heq
    simp
  · have hne : shard.val ≠ next := fun hval => heq (Fin.ext hval)
    have hiff : shard.val < next + 1 ↔ shard.val < next := by omega
    simp only [hiff, heq, if_false, Nat.add_zero]

theorem unseen_succ {next : Nat} (h : next < shards) :
    unseen count next = count ⟨next, h⟩ + unseen count (next + 1) := by
  have hone : ∑ shard, (if shard = ⟨next, h⟩ then count shard else 0) = count ⟨next, h⟩ := by simp
  rw [unseen, unseen, ← hone, ← Finset.sum_add_distrib]
  refine Finset.sum_congr rfl fun shard _ => ?_
  by_cases heq : shard = ⟨next, h⟩
  · subst heq
    simp
  · have hne : shard.val ≠ next := fun hval => heq (Fin.ext hval)
    have hiff : shard.val < next + 1 ↔ shard.val < next := by omega
    simp only [hiff, heq, if_false, Nat.zero_add]

variable {count}

/-- The parts do not decrease when no shard does. -/
theorem parts_mono {count' : Fin shards → Nat} (h : ∀ shard, count shard ≤ count' shard) :
    ∑ shard, count shard ≤ ∑ shard, count' shard ∧
      (∀ next, seen count next ≤ seen count' next) ∧
      ∀ next, unseen count next ≤ unseen count' next := by
  refine ⟨Finset.sum_le_sum fun shard _ => h shard, fun next => ?_, fun next => ?_⟩
  · refine Finset.sum_le_sum fun shard _ => ?_
    split
    · exact h shard
    · exact Nat.le_refl 0
  · refine Finset.sum_le_sum fun shard _ => ?_
    split
    · exact Nat.le_refl 0
    · exact h shard

end Parts

/-! ## The invariant -/

/-- What the thread still has to add. -/
def Phase.pending : Phase shards → Nat
  | .adding _ amount => amount
  | _ => 0

/-- What the thread has added in a call that has not returned. -/
def Phase.unreturned : Phase shards → Nat
  | .added amount => amount
  | _ => 0

/-- The next total of the thread must not be below this one. -/
def Tally.Owes (tally : Tally Thread) (thread : Thread) (low : Nat) : Prop :=
  low = tally.begun thread ∨
    ∃ reading ∈ tally.readings, reading.thread = thread ∧ low = reading.total

/-- The invariant. What a thread has read and what it has not yet seen are together no less than
what it owes, and what it has read is no more than what is there. -/
structure ShardedInv [Fintype Thread] (state : Sharded Thread shards) : Prop where
  applied : ∑ shard, state.count shard + ∑ thread, (state.phase thread).pending =
    state.tally.started
  returned : state.tally.finished + ∑ thread, (state.phase thread).unreturned =
    ∑ shard, state.count shard
  reading_le : ∀ thread next sum, state.phase thread = .reading next sum →
    sum ≤ seen state.count next
  le_reading : ∀ thread next sum, state.phase thread = .reading next sum →
    ∀ low, state.tally.Owes thread low → low ≤ sum + unseen state.count next
  totals_le : ∀ reading ∈ state.tally.readings, reading.total ≤ ∑ shard, state.count shard
  consistent : state.tally.Consistent

section Invariant

variable {state : Sharded Thread shards} {thread : Thread}

/-- A phase after a step is the new one of the thread that made it, or an old one. -/
theorem goto_phase {phase other : Phase shards} {reader : Thread}
    (h : (state.goto thread phase).phase reader = other) :
    reader = thread ∧ phase = other ∨ reader ≠ thread ∧ state.phase reader = other := by
  by_cases heq : reader = thread
  · subst heq
    exact .inl ⟨rfl, by simpa [Sharded.goto] using h⟩
  · exact .inr ⟨heq, by simpa [Sharded.goto, Function.update_of_ne heq] using h⟩

/-- If a thread goes on to something that is not a reading, the readings are those of the others. -/
theorem reading_of_goto {phase : Phase shards} {reader : Thread} {next sum : Nat}
    (hphase : ∀ next sum, phase ≠ .reading next sum)
    (h : (state.goto thread phase).phase reader = .reading next sum) :
    reader ≠ thread ∧ state.phase reader = .reading next sum := by
  obtain ⟨-, heq⟩ | hold := goto_phase h
  · exact absurd heq (hphase next sum)
  · exact hold

variable [Fintype Thread]

/-- What the threads have to add changes by what one of them has to add. -/
theorem sum_pending (state : Sharded Thread shards) (thread : Thread) (phase : Phase shards) :
    ∑ other, ((state.goto thread phase).phase other).pending + (state.phase thread).pending =
      ∑ other, (state.phase other).pending + phase.pending :=
  sum_update_add Phase.pending state.phase thread phase

theorem sum_unreturned (state : Sharded Thread shards) (thread : Thread) (phase : Phase shards) :
    ∑ other, ((state.goto thread phase).phase other).unreturned +
        (state.phase thread).unreturned =
      ∑ other, (state.phase other).unreturned + phase.unreturned :=
  sum_update_add Phase.unreturned state.phase thread phase

omit [DecidableEq Thread] in
theorem ShardedInv.init : ShardedInv ({} : Sharded Thread shards) where
  applied := by simp [Phase.pending]
  returned := by simp [Phase.unreturned]
  reading_le _ _ _ h := by cases h
  le_reading _ _ _ h := by cases h
  totals_le _ h := by cases h
  consistent := ⟨fun _ h => (List.not_mem_nil h).elim, .nil⟩

namespace ShardedInv

omit [DecidableEq Thread] in
/-- The bounds of the sum of the shards. -/
theorem sum_bounds (h : ShardedInv state) : state.tally.finished ≤ ∑ shard, state.count shard ∧
    ∑ shard, state.count shard ≤ state.tally.started := by
  have happlied := h.applied
  have hreturned := h.returned
  omega

omit [DecidableEq Thread] in
/-- What a shard will hold is no more than what has been called. -/
theorem adding_le (h : ShardedInv state) {shard : Fin shards} {amount : Nat}
    (hadding : state.phase thread = .adding shard amount) :
    state.count shard + amount ≤ state.tally.started := by
  have happlied := h.applied
  have hcount : state.count shard ≤ ∑ shard, state.count shard :=
    Finset.single_le_sum (fun _ _ => Nat.zero_le _) (Finset.mem_univ shard)
  have hpending : (state.phase thread).pending ≤ ∑ thread, (state.phase thread).pending :=
    Finset.single_le_sum (f := fun thread => (state.phase thread).pending)
      (fun _ _ => Nat.zero_le _) (Finset.mem_univ thread)
  rw [hadding] at hpending
  change amount ≤ _ at hpending
  omega

omit [DecidableEq Thread] in
/-- What a thread will have read is no more than what has been called. -/
theorem visit_le (h : ShardedInv state) {next sum : Nat}
    (hreading : state.phase thread = .reading next sum) (hnext : next < shards) :
    sum + state.count ⟨next, hnext⟩ ≤ state.tally.started := by
  have hle := h.reading_le thread next sum hreading
  have hseen := seen_succ state.count hnext
  have htotal := seen_le state.count (next + 1)
  have hbounds := h.sum_bounds.2
  omega

/-- What is still to be added and to return, when a thread goes on. -/
theorem account (h : ShardedInv state) {before : Phase shards}
    (hbefore : state.phase thread = before) (after : Phase shards) :
    ∑ shard, state.count shard + ∑ other, ((state.goto thread after).phase other).pending +
        before.pending = state.tally.started + after.pending ∧
      state.tally.finished + ∑ other, ((state.goto thread after).phase other).unreturned +
        before.unreturned = ∑ shard, state.count shard + after.unreturned := by
  have happlied := h.applied
  have hreturned := h.returned
  have hpending := sum_pending state thread after
  have hunreturned := sum_unreturned state thread after
  rw [hbefore] at hpending hunreturned
  omega

theorem add (h : ShardedInv state) (hidle : state.phase thread = .idle) (shard : Fin shards)
    (amount : Nat) :
    ShardedInv { state.goto thread (.adding shard amount) with
      tally := state.tally.start amount } := by
  obtain ⟨happlied, hreturned⟩ := h.account hidle (.adding shard amount)
  refine ⟨happlied, hreturned, fun reader next sum hreader => ?_,
    fun reader next sum hreader => ?_, h.totals_le, h.consistent.1, h.consistent.2⟩
  · exact h.reading_le reader next sum (reading_of_goto (by simp) hreader).2
  · exact h.le_reading reader next sum (reading_of_goto (by simp) hreader).2

theorem apply (h : ShardedInv state) {shard : Fin shards} {amount : Nat}
    (hadding : state.phase thread = .adding shard amount) :
    ShardedInv { state.goto thread (.added amount) with
      count := Function.update state.count shard (state.count shard + amount) } := by
  obtain ⟨happlied, hreturned⟩ := h.account hadding (.added amount)
  have hcount := sum_update_add (fun n : Nat => n) state.count shard (state.count shard + amount)
  have hgrown : ∀ other, state.count other ≤
      Function.update state.count shard (state.count shard + amount) other := by
    intro other
    by_cases heq : other = shard
    · subst heq
      simp
    · rw [Function.update_of_ne heq]
  obtain ⟨htotal, hseen, hunseen⟩ := parts_mono hgrown
  change _ + amount = _ + 0 at happlied
  change _ + 0 = _ + amount at hreturned
  refine ⟨?_, ?_, fun reader next sum hreader => ?_, fun reader next sum hreader low hlow => ?_,
    fun reading hmem => ?_, h.consistent.1, h.consistent.2⟩
  · change _ = state.tally.started
    dsimp only
    omega
  · change state.tally.finished + _ = _
    dsimp only
    omega
  · have hle := h.reading_le reader next sum (reading_of_goto (by simp) hreader).2
    exact hle.trans (hseen next)
  · have hle := h.le_reading reader next sum (reading_of_goto (by simp) hreader).2 low hlow
    exact hle.trans (Nat.add_le_add_left (hunseen next) sum)
  · exact (h.totals_le reading hmem).trans htotal

theorem finish (h : ShardedInv state) {amount : Nat} (hadded : state.phase thread = .added amount) :
    ShardedInv { state.goto thread .idle with tally := state.tally.finish amount } := by
  obtain ⟨happlied, hreturned⟩ := h.account hadded .idle
  refine ⟨happlied, ?_, fun reader next sum hreader => ?_, fun reader next sum hreader => ?_,
    h.totals_le, h.consistent.1, h.consistent.2⟩
  · change state.tally.finished + amount + _ = ∑ shard, state.count shard
    rw [Nat.add_right_comm]
    exact hreturned
  · exact h.reading_le reader next sum (reading_of_goto (by simp) hreader).2
  · exact h.le_reading reader next sum (reading_of_goto (by simp) hreader).2

/-- A reading begins with everything still to be seen. -/
theorem read (h : ShardedInv state) (hidle : state.phase thread = .idle) :
    ShardedInv { state.goto thread (.reading 0 0) with
      tally := state.tally.beginReading thread } := by
  obtain ⟨happlied, hreturned⟩ := h.account hidle (.reading 0 0)
  refine ⟨happlied, hreturned, fun reader next sum hreader => ?_,
    fun reader next sum hreader low hlow => ?_, h.totals_le, h.consistent.1, h.consistent.2⟩
  · obtain ⟨-, heq⟩ | ⟨-, hold⟩ := goto_phase hreader
    · obtain ⟨rfl, rfl⟩ := Phase.reading.inj heq
      exact Nat.zero_le _
    · exact h.reading_le reader next sum hold
  · obtain ⟨rfl, heq⟩ | ⟨hne, hold⟩ := goto_phase hreader
    · obtain ⟨rfl, rfl⟩ := Phase.reading.inj heq
      change low ≤ 0 + unseen state.count 0
      rw [unseen_zero, Nat.zero_add]
      obtain hbegun | ⟨reading, hmem, -, rfl⟩ := hlow
      · rw [hbegun]
        simpa [Tally.beginReading] using h.sum_bounds.1
      · exact h.totals_le reading hmem
    · refine h.le_reading reader next sum hold low (hlow.imp_left fun hbegun => ?_)
      simpa [Tally.beginReading, Function.update_of_ne hne] using hbegun

/-- What is seen of the next shard is no longer to be seen. -/
theorem visit (h : ShardedInv state) {next sum : Nat}
    (hreading : state.phase thread = .reading next sum) (hnext : next < shards) :
    ShardedInv (state.goto thread (.reading (next + 1) (sum + state.count ⟨next, hnext⟩))) := by
  obtain ⟨happlied, hreturned⟩ :=
    h.account hreading (.reading (next + 1) (sum + state.count ⟨next, hnext⟩))
  refine ⟨happlied, hreturned, fun reader next' sum' hreader => ?_,
    fun reader next' sum' hreader low hlow => ?_, h.totals_le, h.consistent⟩
  · obtain ⟨rfl, heq⟩ | ⟨-, hold⟩ := goto_phase hreader
    · obtain ⟨rfl, rfl⟩ := Phase.reading.inj heq
      have hle := h.reading_le reader next sum hreading
      change _ ≤ seen state.count _
      rw [seen_succ _ hnext]
      omega
    · exact h.reading_le reader next' sum' hold
  · obtain ⟨rfl, heq⟩ | ⟨-, hold⟩ := goto_phase hreader
    · obtain ⟨rfl, rfl⟩ := Phase.reading.inj heq
      have hle := h.le_reading reader next sum hreading low hlow
      rw [unseen_succ _ hnext] at hle
      change _ ≤ _ + unseen state.count _
      omega
    · exact h.le_reading reader next' sum' hold low hlow

/-- At the end nothing is left to be seen. -/
theorem total (h : ShardedInv state) {next sum : Nat}
    (hreading : state.phase thread = .reading next sum) (hend : shards ≤ next) :
    ShardedInv { state.goto thread .idle with tally := state.tally.endReading thread sum } := by
  obtain ⟨happlied, hreturned⟩ := h.account hreading .idle
  have hle : sum ≤ ∑ shard, state.count shard :=
    (h.reading_le thread next sum hreading).trans (seen_le _ next)
  have howes : ∀ low, state.tally.Owes thread low → low ≤ sum := by
    intro low hlow
    have hlow := h.le_reading thread next sum hreading low hlow
    rwa [unseen_all _ hend, Nat.add_zero] at hlow
  refine ⟨happlied, hreturned, fun reader next' sum' hreader => ?_,
    fun reader next' sum' hreader low hlow => ?_, fun reading hmem => ?_,
    ⟨fun reading hmem => ?_, ?_⟩⟩
  · exact h.reading_le reader next' sum' (reading_of_goto (by simp) hreader).2
  · obtain ⟨hne, hold⟩ := reading_of_goto (by simp) hreader
    refine h.le_reading reader next' sum' hold low (hlow.imp_right ?_)
    rintro ⟨reading, hmem, hthread, rfl⟩
    cases List.mem_append.mp hmem with
    | inl holdReading => exact ⟨reading, holdReading, hthread, rfl⟩
    | inr hnew =>
        rw [List.mem_singleton.mp hnew] at hthread
        exact absurd hthread.symm hne
  · cases List.mem_append.mp hmem with
    | inl hold => exact h.totals_le reading hold
    | inr hnew =>
        rw [List.mem_singleton.mp hnew]
        exact hle
  · cases List.mem_append.mp hmem with
    | inl hold => exact h.consistent.bounds reading hold
    | inr hnew =>
        rw [List.mem_singleton.mp hnew]
        exact ⟨howes _ (.inl rfl), hle.trans h.sum_bounds.2⟩
  · refine List.pairwise_append.mpr ⟨h.consistent.monotone, List.pairwise_singleton _ _, ?_⟩
    intro first hfirst second hsecond hthread
    rw [List.mem_singleton.mp hsecond] at hthread ⊢
    exact howes _ (.inr ⟨first, hfirst, hthread, rfl⟩)

/-- Every step keeps the invariant. -/
theorem step (h : ShardedInv state) {move : Move Thread shards} {next : Sharded Thread shards}
    (hstep : state.step move = some next) : ShardedInv next := by
  cases move with
  | add thread shard amount =>
      simp only [Sharded.step] at hstep
      split at hstep
      · next hidle =>
          obtain rfl := Option.some.inj hstep
          exact h.add hidle shard amount
      · cases hstep
  | apply thread =>
      simp only [Sharded.step] at hstep
      split at hstep
      · next hadding =>
          obtain rfl := Option.some.inj hstep
          exact h.apply hadding
      · cases hstep
  | finish thread =>
      simp only [Sharded.step] at hstep
      split at hstep
      · next hadded =>
          obtain rfl := Option.some.inj hstep
          exact h.finish hadded
      · cases hstep
  | read thread =>
      simp only [Sharded.step] at hstep
      split at hstep
      · next hidle =>
          obtain rfl := Option.some.inj hstep
          exact h.read hidle
      · cases hstep
  | visit thread =>
      simp only [Sharded.step] at hstep
      split at hstep
      · next hreading =>
          split at hstep
          · next hnext =>
              obtain rfl := Option.some.inj hstep
              exact h.visit hreading hnext
          · cases hstep
      · cases hstep
  | total thread =>
      simp only [Sharded.step] at hstep
      split at hstep
      · next hreading =>
          split at hstep
          · cases hstep
          · next hend =>
              obtain rfl := Option.some.inj hstep
              exact h.total hreading (Nat.le_of_not_lt hend)
      · cases hstep

end ShardedInv

variable {allow : Sharded Thread shards → Move Thread shards → Prop}

/-- The invariant holds in every run. -/
theorem shardedInv_of_reachable (h : (shardedSums Thread shards).Reachable allow state) :
    ShardedInv state :=
  h.invariant ShardedInv (fun _ hinit => hinit ▸ .init) fun _ _ _ hinv _ hstep => hinv.step hstep

/-- No thread is inside an addition. -/
def Sharded.Quiet (state : Sharded Thread shards) : Prop :=
  ∀ thread, (state.phase thread).pending = 0 ∧ (state.phase thread).unreturned = 0

omit [DecidableEq Thread] in
/-- While no thread is inside an addition, everything that was called has returned and is in the
shards. -/
theorem ShardedInv.quiet (h : ShardedInv state) (hquiet : state.Quiet) :
    state.tally.finished = state.tally.started ∧
      ∑ shard, state.count shard = state.tally.started := by
  have happlied := h.applied
  have hreturned := h.returned
  have hpending : ∑ thread, (state.phase thread).pending = 0 :=
    Finset.sum_eq_zero fun thread _ => (hquiet thread).1
  have hunreturned : ∑ thread, (state.phase thread).unreturned = 0 :=
    Finset.sum_eq_zero fun thread _ => (hquiet thread).2
  omega

end Invariant

end HotPath.Foundation
