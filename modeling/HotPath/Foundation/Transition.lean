import Mathlib.Algebra.GroupWithZero.Nat
import Mathlib.Logic.Relation

/-!
# Guarded transition systems

An executable transition system is a set of initial states together with a step function that
returns `none` when an event is disabled. `Reachable allow` collects the states reached through
events that also meet the guard `allow`, which depends on the state before the step. The guard
carries what a result assumes of its callers, so one system serves several results.

History variables are added by `withHistory`. They never influence a step, which is what
`Reachable.erase` and `Reachable.record` say.
-/

namespace HotPath.Foundation

/-- A transition system with a partial step function. -/
structure System (State Event : Type*) where
  init : State → Prop
  step : State → Event → Option State

/-- A recorder computes history variables from the steps of a system. -/
structure Recorder (State Event History : Type*) where
  start : State → History
  observe : State → Event → State → History → History

namespace System

variable {State Event History : Type*} (sys : System State Event)

/-- The states reached from an initial state through enabled events that meet `allow`. -/
inductive Reachable (allow : State → Event → Prop) : State → Prop where
  | init {state : State} : sys.init state → Reachable allow state
  | step {state next : State} {event : Event} :
      Reachable allow state → allow state event → sys.step state event = some next →
      Reachable allow next

variable {sys} {allow weaker : State → Event → Prop}

/-- A property that holds initially and is preserved by every allowed step holds of every
reachable state. -/
theorem Reachable.invariant (inv : State → Prop) (hinit : ∀ state, sys.init state → inv state)
    (hstep : ∀ state event next, inv state → allow state event →
      sys.step state event = some next → inv next)
    {state : State} (h : sys.Reachable allow state) : inv state := by
  induction h with
  | init h => exact hinit _ h
  | step _ hallow hnext ih => exact hstep _ _ _ ih hallow hnext

/-- Weakening the guard keeps every reachable state. -/
theorem Reachable.mono (hle : ∀ state event, allow state event → weaker state event)
    {state : State} (h : sys.Reachable allow state) : sys.Reachable weaker state := by
  induction h with
  | init h => exact .init h
  | step _ hallow hnext ih => exact .step ih (hle _ _ hallow) hnext

/-- If every step of a system is a step of another one or changes nothing there, its reachable
states are reachable there. -/
theorem Reachable.simulate {State' Event' : Type*} {sys' : System State' Event'}
    {allow' : State' → Event' → Prop} (view : State → State')
    (hinit : ∀ state, sys.init state → sys'.init (view state))
    (hstep : ∀ state event next, sys.Reachable allow state → sys'.Reachable allow' (view state) →
      allow state event → sys.step state event = some next →
      view next = view state ∨ ∃ event', allow' (view state) event' ∧
        sys'.step (view state) event' = some (view next))
    {state : State} (h : sys.Reachable allow state) : sys'.Reachable allow' (view state) := by
  induction h with
  | init h => exact .init (hinit _ h)
  | step h hallow hnext ih =>
      obtain hsame | ⟨event', hallow', hnext'⟩ := hstep _ _ _ h ih hallow hnext
      · rwa [hsame]
      · exact .step ih hallow' hnext'

/-! ## Replaying a list of events -/

variable (sys allow)

/-- Run a list of events from a state. The result is `none` when one of them is disabled or does
not meet the guard. -/
def replay [∀ state event, Decidable (allow state event)] : State → List Event → Option State
  | state, [] => some state
  | state, event :: rest =>
      if allow state event then sys.step state event >>= fun next => replay next rest else none

variable {sys allow}

/-- A successful replay from a reachable state ends in a reachable state. -/
theorem Reachable.replay [∀ state event, Decidable (allow state event)] {events : List Event}
    {state final : State} (h : sys.Reachable allow state)
    (hrun : sys.replay allow state events = some final) : sys.Reachable allow final := by
  induction events generalizing state with
  | nil =>
      obtain rfl : state = final := Option.some.inj hrun
      exact h
  | cons event rest ih =>
      simp only [System.replay] at hrun
      split at hrun
      · next hallow =>
          obtain ⟨next, hnext, hrest⟩ := Option.bind_eq_some_iff.mp hrun
          exact ih (.step h hallow hnext) hrest
      · simp at hrun

/-- A replay whose last state satisfies a decidable property reaches such a state. -/
theorem exists_reachable_of_replay (sys : System State Event) (allow : State → Event → Prop)
    [∀ state event, Decidable (allow state event)] (start : State) (events : List Event)
    (good : State → Bool) (hstart : sys.Reachable allow start)
    (hrun : (sys.replay allow start events).any good = true) :
    ∃ final, sys.Reachable allow final ∧ good final = true := by
  cases hfinal : sys.replay allow start events with
  | none => simp [hfinal] at hrun
  | some final => exact ⟨final, hstart.replay hfinal, by simpa [hfinal] using hrun⟩

/-! ## History variables -/

/-- The system extended with history variables. -/
def withHistory (sys : System State Event) (recorder : Recorder State Event History) :
    System (State × History) Event where
  init pair := sys.init pair.1 ∧ pair.2 = recorder.start pair.1
  step pair event := (sys.step pair.1 event).map fun next =>
    (next, recorder.observe pair.1 event next pair.2)

variable {recorder : Recorder State Event History}

/-- A step of the extended system is a step of the system plus the recorder's update. -/
theorem withHistory_step {pair next : State × History} {event : Event} :
    (sys.withHistory recorder).step pair event = some next ↔
      sys.step pair.1 event = some next.1 ∧
        next.2 = recorder.observe pair.1 event next.1 pair.2 := by
  obtain ⟨state, history⟩ := pair
  obtain ⟨state', history'⟩ := next
  simp only [withHistory, Option.map_eq_some_iff, Prod.mk.injEq]
  constructor
  · rintro ⟨final, hstep, rfl, rfl⟩
    exact ⟨hstep, rfl⟩
  · rintro ⟨hstep, rfl⟩
    exact ⟨_, hstep, rfl, rfl⟩

/-- A step of the system extends a run with history. -/
theorem Reachable.recorded_step {allowed : State × History → Event → Prop}
    {pair : State × History} {next : State} {event : Event}
    (h : (sys.withHistory recorder).Reachable allowed pair) (hallow : allowed pair event)
    (hstep : sys.step pair.1 event = some next) :
    (sys.withHistory recorder).Reachable allowed
      (next, recorder.observe pair.1 event next pair.2) :=
  .step h hallow (withHistory_step.mpr ⟨hstep, rfl⟩)

/-- Forgetting the history of a run gives a run. -/
theorem Reachable.erase {allowed : State × History → Event → Prop}
    (hle : ∀ pair event, allowed pair event → allow pair.1 event)
    {pair : State × History} (h : (sys.withHistory recorder).Reachable allowed pair) :
    sys.Reachable allow pair.1 := by
  induction h with
  | init h => exact .init h.1
  | step _ hallow hnext ih => exact .step ih (hle _ _ hallow) (withHistory_step.mp hnext).1

/-- Every run can be recorded. -/
theorem Reachable.record (recorder : Recorder State Event History)
    {state : State} (h : sys.Reachable allow state) :
    ∃ history, (sys.withHistory recorder).Reachable (fun pair => allow pair.1)
      (state, history) := by
  induction h with
  | @init state h => exact ⟨recorder.start state, .init ⟨h, rfl⟩⟩
  | @step state next event _ hallow hnext ih =>
      obtain ⟨history, ih⟩ := ih
      exact ⟨recorder.observe state event next history,
        .step ih hallow (withHistory_step.mpr ⟨hnext, rfl⟩)⟩

end System

end HotPath.Foundation
