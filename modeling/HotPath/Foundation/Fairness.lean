import HotPath.Foundation.Transition
import Mathlib.Order.WellFounded

/-!
# Fair runs

A thread that waits in a loop can take steps forever. A system with such threads reaches its end
only if the schedule is fair: an actor that can move from some point on takes a step at some time.
Nothing is asked of events without an actor, such as the passage of time.

`FairlyReaches.of_progress` proves that every fair run reaches a goal. The argument is a measure
that no step raises and, in every state short of the goal, an actor whose steps lower the measure.
Steps of others that leave the measure as it is may not take that part away from the actor.
-/

namespace HotPath.Foundation

namespace System

variable {State Event Actor : Type*}

/-- The actor has an allowed step. -/
def CanMove (sys : System State Event) (allow : State → Event → Prop)
    (actor : Event → Option Actor) (state : State) (who : Actor) : Prop :=
  ∃ event next, actor event = some who ∧ allow state event ∧ sys.step state event = some next

/-- An infinite run with the event of each instant, if there is one. An actor that can move from
some point on takes a step. -/
structure FairRun (sys : System State Event) (allow : State → Event → Prop)
    (actor : Event → Option Actor) (run : Nat → State) (taken : Nat → Option Event) : Prop where
  start : sys.init (run 0)
  rests : ∀ n, taken n = none → run (n + 1) = run n
  moves : ∀ n event, taken n = some event →
    allow (run n) event ∧ sys.step (run n) event = some (run (n + 1))
  fair : ∀ who n, ∃ m, n ≤ m ∧
    ((∃ event, taken m = some event ∧ actor event = some who) ∨
      ¬ sys.CanMove allow actor (run m) who)

/-- Every fair run reaches the goal. -/
def FairlyReaches (sys : System State Event) (allow : State → Event → Prop)
    (actor : Event → Option Actor) (goal : State → Prop) : Prop :=
  ∀ run taken, sys.FairRun allow actor run taken → ∃ n, goal (run n)

/-- A measure of the work that is left, and the actors whose steps lower it. -/
structure Progress (sys : System State Event) (allow : State → Event → Prop)
    (actor : Event → Option Actor) (goal : State → Prop) (work : State → Nat)
    (helpful : State → Actor → Prop) : Prop where
  step : ∀ state event next, sys.Reachable allow state → allow state event →
    sys.step state event = some next → work next < work state ∨
      work next = work state ∧
        ∀ who, helpful state who → actor event ≠ some who ∧ helpful next who
  moves : ∀ state who, sys.Reachable allow state → helpful state who →
    sys.CanMove allow actor state who
  helps : ∀ state, sys.Reachable allow state → ¬ goal state → ∃ who, helpful state who

variable {sys : System State Event} {allow : State → Event → Prop} {actor : Event → Option Actor}
  {goal : State → Prop} {run : Nat → State} {taken : Nat → Option Event} {work : State → Nat}
  {helpful : State → Actor → Prop}

/-- The states of a fair run are reachable. -/
theorem FairRun.reachable (h : sys.FairRun allow actor run taken) (n : Nat) :
    sys.Reachable allow (run n) := by
  induction n with
  | zero => exact .init h.start
  | succ n ih =>
      cases htaken : taken n with
      | none =>
          rw [h.rests n htaken]
          exact ih
      | some event =>
          obtain ⟨hallow, hstep⟩ := h.moves n event htaken
          exact .step ih hallow hstep

/-- An actor that helps while no work is done keeps helping, and does not move. -/
theorem FairRun.still_helpful (h : sys.FairRun allow actor run taken)
    (hprogress : sys.Progress allow actor goal work helpful) {start n : Nat} {who : Actor}
    (hleast : ∀ n, work (run start) ≤ work (run n)) (hhelpful : helpful (run start) who)
    (hle : start ≤ n) : work (run n) = work (run start) ∧ helpful (run n) who := by
  induction n, hle using Nat.le_induction with
  | base => exact ⟨rfl, hhelpful⟩
  | succ n _ ih =>
      obtain ⟨hwork, hstill⟩ := ih
      cases htaken : taken n with
      | none =>
          rw [h.rests n htaken]
          exact ⟨hwork, hstill⟩
      | some event =>
          obtain ⟨hallow, hstep⟩ := h.moves n event htaken
          cases hprogress.step _ _ _ (h.reachable n) hallow hstep with
          | inl hless =>
              have hmin := hleast (n + 1)
              omega
          | inr hsame => exact ⟨hsame.1.trans hwork, (hsame.2 who hstill).2⟩

/-- Fair runs reach the goal if the work that is left makes progress. -/
theorem FairlyReaches.of_progress (hprogress : sys.Progress allow actor goal work helpful) :
    sys.FairlyReaches allow actor goal := by
  intro run taken h
  by_contra hnever
  -- From the state with the least work on, no work is done.
  let least := Function.argmin fun n => work (run n)
  have hleast : ∀ n, work (run least) ≤ work (run n) := fun n =>
    Function.argmin_le (fun n => work (run n)) n
  obtain ⟨who, hhelpful⟩ := hprogress.helps _ (h.reachable least) fun hgoal => hnever ⟨_, hgoal⟩
  obtain ⟨n, hle, hfair⟩ := h.fair who least
  obtain ⟨hwork, hstill⟩ := h.still_helpful hprogress hleast hhelpful hle
  cases hfair with
  | inl htaken =>
      obtain ⟨event, htaken, hactor⟩ := htaken
      obtain ⟨hallow, hstep⟩ := h.moves n event htaken
      cases hprogress.step _ _ _ (h.reachable n) hallow hstep with
      | inl hless =>
          have hmin := hleast (n + 1)
          omega
      | inr hsame => exact (hsame.2 who hstill).1 hactor
  | inr hstuck => exact hstuck (hprogress.moves _ who (h.reachable n) hstill)

end System

end HotPath.Foundation
