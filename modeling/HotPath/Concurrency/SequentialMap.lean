import HotPath.Concurrency.MapSteps

/-!
# The hash map with sequentially consistent memory

The machine of `MapSteps`, where every store drains in the step that issues it. Between the steps
the buffers are empty.
-/

namespace HotPath.Concurrency.MapSteps

open HotPath.Foundation

variable {K V : Type}

/-- All stores of a thread drain. -/
def settle (state : State K V) (tid : ThreadId) : State K V :=
  { memory := (state.workers tid).buffer.foldl Memory.apply state.memory
    workers := Function.update state.workers tid { state.workers tid with buffer := [] } }

/-- No buffer holds a store. -/
def Settled (state : State K V) : Prop := ∀ tid, (state.workers tid).buffer = []

variable [DecidableEq K] (cfg : MapConfig K)

/-- The machine with sequentially consistent memory: every store drains in the step that issues
it. -/
def sequential : System (State K V) (Event K V) where
  init := (machine cfg).init
  step state event := (step cfg state event).map fun next => settle next event.thread

variable {cfg} {state next : State K V} {memory memory' : Memory K V} {tid : ThreadId}
  {worker worker' : Worker K V}

/-- The buffers are empty between the events. -/
theorem Settled.step {event : Event K V} (h : Settled state)
    (hstep : (sequential cfg).step state event = some next) : Settled next := by
  simp only [sequential, MapSteps.step, Option.map_eq_some_iff] at hstep
  obtain ⟨_, ⟨result, -, rfl⟩, rfl⟩ := hstep
  intro tid
  by_cases heq : tid = event.thread
  · subst heq
    simp only [MapSteps.settle, Function.update_self]
  · simp only [MapSteps.settle, Function.update_of_ne heq]
    exact h tid

end HotPath.Concurrency.MapSteps
