import HotPath.Foundation.Transition
import Mathlib.Algebra.BigOperators.Fin
import Mathlib.Algebra.Order.BigOperators.Group.Finset
import Mathlib.Order.WellFounded

/-!
# Runs that complete

A thread that spins takes steps that change nothing. A system completes if no run changes the
state forever, and if a reachable state that is not final always has a step that changes it. Then
every schedule ends in a final state unless from some point on it ignores all the threads that
could move.

`Completes.of_work` proves this from a bound on the steps that are left. Such a bound is often a
sum over the threads. A step of one thread may then raise the parts of others, if it pays for them
(`sum_add_le_of_payer`).
-/

namespace HotPath.Foundation

namespace System

variable {State Event : Type*}

/-- An infinite run. At each instant an allowed event happens, or nothing does. -/
structure Run (sys : System State Event) (allow : State → Event → Prop) (run : Nat → State) :
    Prop where
  start : sys.init (run 0)
  next : ∀ n, run (n + 1) = run n ∨
    ∃ event, allow (run n) event ∧ sys.step (run n) event = some (run (n + 1))

/-- No run changes the state forever, and only final states have no step that changes them. -/
structure Completes (sys : System State Event) (allow : State → Event → Prop)
    (final : State → Prop) : Prop where
  settles : ∀ run, sys.Run allow run → ∃ limit, ∀ n, limit ≤ n → run n = run limit
  moves : ∀ state, sys.Reachable allow state → ¬ final state →
    ∃ event next, allow state event ∧ sys.step state event = some next ∧ next ≠ state

variable {sys : System State Event} {allow : State → Event → Prop} {final : State → Prop}
  {run : Nat → State}

/-- The states of a run are reachable. -/
theorem Run.reachable (h : sys.Run allow run) (n : Nat) : sys.Reachable allow (run n) := by
  induction n with
  | zero => exact .init h.start
  | succ n ih =>
      cases h.next n with
      | inl hsame => rwa [hsame]
      | inr hstep =>
          obtain ⟨event, hallow, hnext⟩ := hstep
          exact .step ih hallow hnext

/-- A system completes if every step that changes the state leaves less work, and if there is
such a step as long as the state is not final. -/
theorem Completes.of_work (work : State → Nat)
    (hless : ∀ state event next, sys.Reachable allow state → allow state event →
      sys.step state event = some next → next = state ∨ work next < work state)
    (hmoves : ∀ state, sys.Reachable allow state → ¬ final state →
      ∃ event next, allow state event ∧ sys.step state event = some next ∧
        work next < work state) : sys.Completes allow final where
  settles run h := by
    -- The state with the least work is never left.
    let limit := Function.argmin fun n => work (run n)
    refine ⟨limit, fun n hle => ?_⟩
    induction n, hle using Nat.le_induction with
    | base => rfl
    | succ n _ ih =>
        have hleast : work (run limit) ≤ work (run (n + 1)) :=
          Function.argmin_le (fun n => work (run n)) (n + 1)
        cases h.next n with
        | inl hsame => rw [hsame, ih]
        | inr hstep =>
            obtain ⟨event, hallow, hnext⟩ := hstep
            cases hless _ _ _ (h.reachable n) hallow hnext with
            | inl hsame => rw [hsame, ih]
            | inr hlt =>
                rw [ih] at hlt
                omega
  moves state hreach hnot := by
    obtain ⟨event, next, hallow, hstep, hlt⟩ := hmoves state hreach hnot
    refine ⟨event, next, hallow, hstep, fun heq => ?_⟩
    rw [heq] at hlt
    exact Nat.lt_irrefl _ hlt

end System

/-! ## Work of several threads -/

section Sums

variable {n : Nat} {before after : Fin n → Nat}

/-- One thread gives up enough to raise the parts of all the others, and some more. -/
theorem sum_add_le_of_payer (payer : Fin n) (cost saved : Nat)
    (hpayer : after payer + n * cost + saved ≤ before payer)
    (hother : ∀ i, i ≠ payer → after i ≤ before i + cost) :
    ∑ i, after i + saved ≤ ∑ i, before i := by
  have hrest : ∑ i ∈ Finset.univ.erase payer, after i ≤
      ∑ i ∈ Finset.univ.erase payer, (before i + cost) :=
    Finset.sum_le_sum fun i hi => hother i (Finset.ne_of_mem_erase hi)
  have hcost : ∑ _i ∈ Finset.univ.erase payer, cost ≤ n * cost := by
    calc ∑ _i ∈ Finset.univ.erase payer, cost
        ≤ ∑ _i : Fin n, cost := Finset.sum_le_univ_sum_of_nonneg fun _ => Nat.zero_le _
      _ = n * cost := by simp
  have hafter := Finset.add_sum_erase Finset.univ after (Finset.mem_univ payer)
  have hbefore := Finset.add_sum_erase Finset.univ before (Finset.mem_univ payer)
  rw [Finset.sum_add_distrib] at hrest
  omega

/-- The part of one thread is raised. -/
theorem sum_le_of_raised (raised : Fin n) {cost : Nat}
    (hraised : after raised ≤ before raised + cost)
    (hother : ∀ i, i ≠ raised → after i ≤ before i) : ∑ i, after i ≤ ∑ i, before i + cost := by
  have hrest : ∑ i ∈ Finset.univ.erase raised, after i ≤ ∑ i ∈ Finset.univ.erase raised, before i :=
    Finset.sum_le_sum fun i hi => hother i (Finset.ne_of_mem_erase hi)
  have hafter := Finset.add_sum_erase Finset.univ after (Finset.mem_univ raised)
  have hbefore := Finset.add_sum_erase Finset.univ before (Finset.mem_univ raised)
  omega

end Sums

end HotPath.Foundation
