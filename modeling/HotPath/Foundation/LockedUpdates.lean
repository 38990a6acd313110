import HotPath.Foundation.Transition
import Mathlib.Logic.Function.Iterate

/-!
# Updates under a lock

Threads update shared data one access at a time, each update inside one critical section of a
lock. A `TryLock` is a word, the places of a thread inside `lock`, and what one access at such a
place does. An `Update` is a sequence of single accesses together with the function that it
computes when it runs alone.

`serial_of_reachable` says that at most one thread is inside an update, and that the data
is what the updates leave when they run one after the other in the order in which they acquired
the lock.
-/

namespace HotPath.Foundation

/-- A lock that a thread acquires by repeated attempts. The flag of an attempt says that a weak
compare-exchange fails for no cause. An attempt ends in another place of `lock`, or acquires the
lock. -/
structure TryLock where
  Word : Type
  Place : Type
  free : Word
  start : Place
  attempt : Place → Word → Bool → Word × Option Place
  acquires : ∀ place word spurious, (attempt place word spurious).2 = none →
    word = free ∧ (attempt place word spurious).1 ≠ free
  waits : ∀ place word spurious place', (attempt place word spurious).2 = some place' →
    (attempt place word spurious).1 = word

section Update

variable {Arg Local Data : Type}

/-- One configuration leads to another by single accesses. -/
def Steps (access : Local × Data → Option (Local × Data)) :
    Local × Data → Local × Data → Prop :=
  Relation.ReflTransGen fun before after => access before = some after

theorem Steps.head {access : Local × Data → Option (Local × Data)}
    {before after last : Local × Data} (h : access before = some after)
    (hrest : Steps access after last) : Steps access before last :=
  Relation.ReflTransGen.head h hrest

/-- A loop that is part of an update makes its accesses there. -/
theorem Steps.embed {Local' Data' : Type} {access : Local × Data → Option (Local × Data)}
    {before after : Local × Data} (access' : Local' × Data' → Option (Local' × Data'))
    (part : Local × Data → Local' × Data')
    (hpart : ∀ now next, access now = some next → access' (part now) = some (part next))
    (h : Steps access before after) : Steps access' (part before) (part after) := by
  induction h with
  | refl => exact .refl
  | tail _ hstep ih => exact ih.tail (hpart _ _ hstep)

/-- Accesses are deterministic, so whatever is reached on the way still leads to the last
configuration. -/
theorem Steps.suffix {access : Local × Data → Option (Local × Data)}
    {start middle last : Local × Data} (hmiddle : Steps access start middle)
    (hlast : Steps access start last) (hend : access last = none) :
    Steps access middle last := by
  have hunique : Relator.RightUnique fun before after => access before = some after := by
    intro before after after' h h'
    exact Option.some.inj (h.symm.trans h')
  rcases Relation.ReflTransGen.total_of_right_unique hunique hmiddle hlast with h | h
  · exact h
  · cases h.cases_head with
    | inl heq =>
        rw [heq]
        exact .refl
    | inr hstep =>
        obtain ⟨next, hnext, -⟩ := hstep
        rw [hend] at hnext
        cases hnext

/-- A configuration without a next access is the last one. -/
theorem Steps.last_unique {access : Local × Data → Option (Local × Data)}
    {start last last' : Local × Data} (h : Steps access start last) (hend : access last = none)
    (h' : Steps access start last') (hend' : access last' = none) : last = last' := by
  cases (h.suffix h' hend').cases_head with
  | inl heq => exact heq
  | inr hstep =>
      obtain ⟨next, hnext, -⟩ := hstep
      rw [hend] at hnext
      cases hnext

/-- An update of shared data, as single accesses and as the function that it computes. -/
structure Update (Arg Local Data : Type) where
  start : Arg → Local
  access : Local × Data → Option (Local × Data)
  run : Arg → Data → Data
  run_eq : ∀ arg data, ∃ last, Steps access (start arg, data) (last, run arg data) ∧
    access (last, run arg data) = none

/-- Run updates one after the other. -/
def Update.serial (update : Update Arg Local Data) (initial : Data) (args : List Arg) : Data :=
  args.foldl (fun data arg => update.run arg data) initial

theorem Update.serial_concat (update : Update Arg Local Data) (initial : Data) (args : List Arg)
    (arg : Arg) : update.serial initial (args ++ [arg]) =
      update.run arg (update.serial initial args) := by
  simp [Update.serial]

/-- A part of the data that every update changes in the same way depends only on the number of
updates. -/
theorem Update.serial_iterate {Part : Type} (update : Update Arg Local Data) (part : Data → Part)
    (next : Part → Part) (hnext : ∀ arg data, part (update.run arg data) = next (part data))
    (initial : Data) (args : List Arg) :
    part (update.serial initial args) = next^[args.length] (part initial) := by
  induction args generalizing initial with
  | nil => rfl
  | cons arg args ih =>
      change part (update.serial (update.run arg initial) args) = _
      rw [ih, hnext]
      rfl

/-- A part of the data on which updates commute does not depend on their order. -/
theorem Update.serial_perm {Part : Type} (update : Update Arg Local Data) (part : Data → Part)
    (next : Part → Arg → Part)
    (hnext : ∀ arg data, part (update.run arg data) = next (part data) arg)
    (hcomm : ∀ total first second, next (next total first) second = next (next total second) first)
    (initial : Data) {args args' : List Arg} (hperm : args.Perm args') :
    part (update.serial initial args) = part (update.serial initial args') := by
  have hfold : ∀ args, part (update.serial initial args) = args.foldl next (part initial) :=
    fun args => (List.foldl_hom part fun data arg => (hnext arg data).symm).symm
  rw [hfold, hfold]
  exact hperm.foldl_eq' (fun first _ second _ total => hcomm total first second) _

end Update

/-! ## Threads -/

/-- A thread, by number. -/
abbrev ThreadId := Nat

/-- Where a thread is: outside, inside `lock` with an update to run, or inside its update. -/
inductive LockedPc (lock : TryLock) (Arg Local : Type) where
  | idle
  | locking (place : lock.Place) (arg : Arg)
  | inside (vars : Local)

/-- The word of the lock, the data and the threads. -/
structure Locked (lock : TryLock) (Arg Local Data : Type) where
  word : lock.Word
  data : Data
  threads : ThreadId → LockedPc lock Arg Local

/-- A call of `lock` for an update, or the next access of a thread. -/
inductive LockedEvent (Arg : Type) where
  | call (tid : ThreadId) (arg : Arg)
  | access (tid : ThreadId) (spurious : Bool)

variable {Arg Local Data : Type} {lock : TryLock}

/-- A thread goes to another place. -/
def Locked.goto (state : Locked lock Arg Local Data) (tid : ThreadId)
    (pc : LockedPc lock Arg Local) : Locked lock Arg Local Data :=
  { state with threads := Function.update state.threads tid pc }

/-- The next access of a thread: an attempt, an access of the update, or the store of `unlock`. -/
def Locked.access (update : Update Arg Local Data) (state : Locked lock Arg Local Data)
    (tid : ThreadId) (spurious : Bool) : Option (Locked lock Arg Local Data) :=
  match state.threads tid with
  | .idle => none
  | .locking place arg =>
      let (word, place') := lock.attempt place state.word spurious
      some ({ state with word := word }.goto tid
        (match place' with
          | some place' => .locking place' arg
          | none => .inside (update.start arg)))
  | .inside vars =>
      match update.access (vars, state.data) with
      | some (vars', data) => some ({ state with data := data }.goto tid (.inside vars'))
      | none => some ({ state with word := lock.free }.goto tid .idle)

/-- One step. -/
def Locked.step (update : Update Arg Local Data) (state : Locked lock Arg Local Data) :
    LockedEvent Arg → Option (Locked lock Arg Local Data)
  | .call tid arg =>
      match state.threads tid with
      | .idle => some (state.goto tid (.locking lock.start arg))
      | _ => none
  | .access tid spurious => state.access update tid spurious

/-- Threads that update shared data under a lock, as a transition system. -/
def lockedUpdates (lock : TryLock) (update : Update Arg Local Data) (initial : Data) :
    System (Locked lock Arg Local Data) (LockedEvent Arg) where
  init state := state = ⟨lock.free, initial, fun _ => .idle⟩
  step := Locked.step update

/-- The recorder of the updates in the order in which they acquired the lock. -/
def acquisitions (lock : TryLock) (Arg Local Data : Type) :
    Recorder (Locked lock Arg Local Data) (LockedEvent Arg) (List (ThreadId × Arg)) where
  start _ := []
  observe state event _ acquired :=
    match event with
    | .call _ _ => acquired
    | .access tid spurious =>
        match state.threads tid with
        | .locking place arg =>
            match (lock.attempt place state.word spurious).2 with
            | none => acquired ++ [(tid, arg)]
            | some _ => acquired
        | _ => acquired

/-- The thread is inside its update. -/
def Locked.Inside (state : Locked lock Arg Local Data) (tid : ThreadId) : Prop :=
  ∃ vars, state.threads tid = .inside vars

/-- The invariant of the lock and the data. -/
structure SerialInv (update : Update Arg Local Data) (initial : Data)
    (state : Locked lock Arg Local Data) (acquired : List (ThreadId × Arg)) : Prop where
  alone : ∀ tid other, state.Inside tid → state.Inside other → tid = other
  taken : (∃ tid, state.Inside tid) ↔ state.word ≠ lock.free
  quiet : state.word = lock.free → state.data = update.serial initial (acquired.map Prod.snd)
  inside : ∀ tid vars, state.threads tid = .inside vars → ∃ earlier arg,
    acquired = earlier ++ [(tid, arg)] ∧
      Steps update.access (update.start arg, update.serial initial (earlier.map Prod.snd))
        (vars, state.data)

section Serial

variable {update : Update Arg Local Data} {initial : Data} {state : Locked lock Arg Local Data}
  {acquired : List (ThreadId × Arg)} {tid : ThreadId}

theorem Locked.inside_goto {pc : LockedPc lock Arg Local} {other : ThreadId} :
    (state.goto tid pc).Inside other ↔
      other = tid ∧ (∃ vars, pc = .inside vars) ∨ other ≠ tid ∧ state.Inside other := by
  by_cases heq : other = tid
  · subst heq
    simp [Locked.Inside, Locked.goto]
  · simp [Locked.Inside, Locked.goto, heq]

theorem SerialInv.init : SerialInv update initial
    (⟨lock.free, initial, fun _ => .idle⟩ : Locked lock Arg Local Data) [] where
  alone := by simp [Locked.Inside]
  taken := by simp [Locked.Inside]
  quiet _ := rfl
  inside := by simp

/-- A thread that is not inside its update goes to a place that is not inside either. -/
theorem SerialInv.roam (h : SerialInv update initial state acquired)
    {pc : LockedPc lock Arg Local} (hout : ¬ state.Inside tid)
    (hpc : ¬ ∃ vars, pc = .inside vars) :
    SerialInv update initial (state.goto tid pc) acquired := by
  have hsame : ∀ other, (state.goto tid pc).Inside other ↔ state.Inside other := by
    intro other
    rw [Locked.inside_goto]
    constructor
    · rintro (⟨-, hin⟩ | ⟨-, hin⟩)
      · exact absurd hin hpc
      · exact hin
    · intro hin
      refine .inr ⟨?_, hin⟩
      rintro rfl
      exact hout hin
  refine ⟨fun first second => ?_, ?_, h.quiet, fun other vars hvars => ?_⟩
  · rw [hsame, hsame]
    exact h.alone first second
  · simp only [hsame]
    exact h.taken
  · have hne : other ≠ tid := by
      rintro rfl
      exact hpc ⟨vars, by simpa [Locked.goto] using hvars⟩
    exact h.inside other vars (by simpa [Locked.goto, Function.update_of_ne hne] using hvars)

/-- A thread acquires the free lock. -/
theorem SerialInv.acquire (h : SerialInv update initial state acquired) {word : lock.Word}
    {arg : Arg} (hfree : state.word = lock.free) (hword : word ≠ lock.free) :
    SerialInv update initial
      (({ state with word := word } : Locked lock Arg Local Data).goto tid
        (.inside (update.start arg))) (acquired ++ [(tid, arg)]) := by
  have hnobody : ∀ other, ¬ state.Inside other := by
    intro other hin
    exact h.taken.mp ⟨other, hin⟩ hfree
  have honly : ∀ other, (({ state with word := word } : Locked lock Arg Local Data).goto tid
      (.inside (update.start arg))).Inside other → other = tid := by
    intro other hin
    rcases Locked.inside_goto.mp hin with ⟨heq, -⟩ | ⟨-, hin⟩
    · exact heq
    · exact absurd hin (hnobody other)
  refine ⟨fun first second hfirst hsecond => ?_, ?_, fun hfree => absurd hfree hword,
    fun other vars hvars => ?_⟩
  · rw [honly first hfirst, honly second hsecond]
  · exact ⟨fun _ => hword, fun _ => ⟨tid, Locked.inside_goto.mpr (.inl ⟨rfl, _, rfl⟩)⟩⟩
  · obtain rfl := honly other ⟨vars, hvars⟩
    obtain rfl : update.start arg = vars := by simpa [Locked.goto] using hvars
    refine ⟨acquired, arg, rfl, ?_⟩
    rw [← h.quiet hfree]
    exact .refl

/-- A thread makes an access of its update. -/
theorem SerialInv.body (h : SerialInv update initial state acquired) {vars vars' : Local}
    {data : Data} (hin : state.threads tid = .inside vars)
    (haccess : update.access (vars, state.data) = some (vars', data)) :
    SerialInv update initial
      (({ state with data := data } : Locked lock Arg Local Data).goto tid (.inside vars'))
      acquired := by
  have hsame : ∀ other, (({ state with data := data } : Locked lock Arg Local Data).goto tid
      (.inside vars')).Inside other ↔ state.Inside other := by
    intro other
    rw [Locked.inside_goto]
    constructor
    · rintro (⟨rfl, -⟩ | ⟨-, hother⟩)
      · exact ⟨vars, hin⟩
      · exact hother
    · intro hother
      by_cases heq : other = tid
      · exact .inl ⟨heq, vars', rfl⟩
      · exact .inr ⟨heq, hother⟩
  have htaken : state.word ≠ lock.free := h.taken.mp ⟨tid, vars, hin⟩
  refine ⟨fun first second => ?_, ?_, fun hfree => absurd hfree htaken,
    fun other vars'' hvars => ?_⟩
  · rw [hsame, hsame]
    exact h.alone first second
  · simp only [hsame]
    exact h.taken
  · obtain rfl : other = tid := h.alone other tid ((hsame other).mp ⟨vars'', hvars⟩) ⟨vars, hin⟩
    obtain rfl : vars' = vars'' := by simpa [Locked.goto] using hvars
    obtain ⟨earlier, arg, hacquired, hsteps⟩ := h.inside other vars hin
    exact ⟨earlier, arg, hacquired, hsteps.tail haccess⟩

/-- A thread whose update is complete releases the lock. -/
theorem SerialInv.release (h : SerialInv update initial state acquired) {vars : Local}
    (hin : state.threads tid = .inside vars) (hend : update.access (vars, state.data) = none) :
    SerialInv update initial
      (({ state with word := lock.free } : Locked lock Arg Local Data).goto tid .idle)
      acquired := by
  have hnobody : ∀ other, ¬ (({ state with word := lock.free } : Locked lock Arg Local Data).goto
      tid .idle).Inside other := by
    intro other hother
    rcases Locked.inside_goto.mp hother with ⟨-, vars', hvars⟩ | ⟨hne, hother⟩
    · cases hvars
    · exact hne (h.alone other tid hother ⟨vars, hin⟩)
  refine ⟨fun first _ hfirst => absurd hfirst (hnobody first), ?_, fun _ => ?_,
    fun other vars' hvars => absurd ⟨vars', hvars⟩ (hnobody other)⟩
  · exact ⟨fun ⟨other, hother⟩ => absurd hother (hnobody other), fun hword => absurd rfl hword⟩
  · obtain ⟨earlier, arg, hacquired, hsteps⟩ := h.inside tid vars hin
    obtain ⟨last, hlast, hstop⟩ := update.run_eq arg (update.serial initial (earlier.map Prod.snd))
    have heq := hsteps.last_unique hend hlast hstop
    rw [hacquired, List.map_append, List.map_cons, List.map_nil, update.serial_concat]
    exact (Prod.mk.inj heq).2

/-- Every step keeps the invariant. -/
theorem SerialInv.step {event : LockedEvent Arg} {next : Locked lock Arg Local Data}
    (h : SerialInv update initial state acquired) (hstep : state.step update event = some next) :
    SerialInv update initial next
      ((acquisitions lock Arg Local Data).observe state event next acquired) := by
  cases event with
  | call tid arg =>
      simp only [Locked.step] at hstep
      split at hstep
      · next hidle =>
          obtain rfl := Option.some.inj hstep
          exact h.roam (by simp [Locked.Inside, hidle]) (by simp)
      · cases hstep
  | access tid spurious =>
      simp only [Locked.step, Locked.access] at hstep
      simp only [acquisitions]
      split at hstep
      · cases hstep
      · next place arg hlocking =>
          have hout : ¬ state.Inside tid := by simp [Locked.Inside, hlocking]
          obtain rfl := Option.some.inj hstep
          simp only [hlocking]
          cases hattempt : (lock.attempt place state.word spurious).2 with
          | none =>
              obtain ⟨hfree, hword⟩ := lock.acquires place state.word spurious hattempt
              exact h.acquire hfree hword
          | some place' =>
              rw [lock.waits place state.word spurious place' hattempt]
              exact h.roam hout (by simp)
      · next vars hin =>
          simp only [hin]
          split at hstep
          · next vars' data haccess =>
              obtain rfl := Option.some.inj hstep
              exact h.body hin haccess
          · next hend =>
              obtain rfl := Option.some.inj hstep
              exact h.release hin hend

end Serial

/-- Updates under a lock are serial. At most one thread is inside its update. While no thread is,
the data is what the updates leave when they run one after the other in the order in which they
acquired the lock. While one is, that is where its remaining accesses lead. -/
theorem serial_of_reachable {update : Update Arg Local Data} {initial : Data}
    {state : Locked lock Arg Local Data} {acquired : List (ThreadId × Arg)}
    (hreach : ((lockedUpdates lock update initial).withHistory
      (acquisitions lock Arg Local Data)).Reachable (fun _ _ => True) (state, acquired)) :
    (∀ tid other, state.Inside tid → state.Inside other → tid = other) ∧
      ((∀ tid, ¬ state.Inside tid) →
        state.data = update.serial initial (acquired.map Prod.snd)) ∧
      ∀ tid vars, state.threads tid = .inside vars → ∃ last,
        Steps update.access (vars, state.data)
          (last, update.serial initial (acquired.map Prod.snd)) ∧
        update.access (last, update.serial initial (acquired.map Prod.snd)) = none := by
  have hinv : SerialInv update initial state acquired := by
    refine hreach.invariant (fun pair => SerialInv update initial pair.1 pair.2) ?_ ?_
    · rintro ⟨start, none⟩ ⟨hstart, hnone⟩
      change start = _ at hstart
      change none = [] at hnone
      rw [hstart, hnone]
      exact .init
    · intro pair event next h _ hstep
      obtain ⟨hnext, hacquired⟩ := System.withHistory_step.mp hstep
      rw [hacquired]
      exact h.step hnext
  refine ⟨hinv.alone, fun hnobody => hinv.quiet ?_, fun tid vars hin => ?_⟩
  · by_contra htaken
    obtain ⟨tid, hin⟩ := hinv.taken.mpr htaken
    exact hnobody tid hin
  · obtain ⟨earlier, arg, hacquired, hsteps⟩ := hinv.inside tid vars hin
    obtain ⟨last, hlast, hend⟩ := update.run_eq arg (update.serial initial (earlier.map Prod.snd))
    rw [hacquired, List.map_append, List.map_cons, List.map_nil, update.serial_concat]
    exact ⟨last, hsteps.suffix hlast hend, hend⟩

end HotPath.Foundation
