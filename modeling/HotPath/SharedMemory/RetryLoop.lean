import HotPath.SharedMemory.BatchRounds
import HotPath.SharedMemory.ProducerSteps

/-!
# The retry loop of `PollCopy`

`PollCopy` leaves its loop through a matching version word, a length error or a lap. Its retry
counter is compared with `kMaxRetries`, and both branches go on with the loop. `poll_copy_returns`
says when a call returns that runs alone: unless it stands at data that is not lapped and whose
version word is odd. A producer that dies in `Reserve` leaves such a position.
-/

namespace HotPath.SharedMemory

open HotPath.Foundation

/-- The retry loop of `PollCopy` with a bound on its iterations. -/
def copyLoop (capacity : UInt64) (shared : Shared) (current : UInt64) :
    Nat → Option (Except Status (FrameHeader × SafeMessage))
  | 0 => none
  | iterations + 1 =>
      match pollCopyPass capacity shared current with
      | .retry => copyLoop capacity shared current iterations
      | .done result => some result

/-- A call of `PollCopy` that runs alone returns within a number of iterations of its loop. -/
def ReturnsWithin (capacity : UInt64) (shared : Shared) (reader : BroadcastReader)
    (iterations : Nat) : Prop :=
  reader.cursor < shared.header.commitCursor →
    ∃ result, copyLoop capacity shared reader.cursor iterations = some result

section Loop

variable {capacity : UInt64} {shared : Shared} {position : UInt64}

/-- At data that is not lapped and has an odd version word the loop never ends. -/
theorem copyLoop_odd (h : OddAt capacity shared position) (iterations : Nat) :
    copyLoop capacity shared position iterations = none := by
  induction iterations with
  | zero => rfl
  | succ iterations ih => simp only [copyLoop, pollCopyPass_odd h, ih]

/-- At any other position with data the first pass ends the loop. -/
theorem pollCopyPass_done (hdata : position < shared.header.commitCursor)
    (h : ¬ OddAt capacity shared position) :
    ∃ result, pollCopyPass capacity shared position = .done result := by
  unfold pollCopyPass
  by_cases hlapped : shared.header.producerCursor - position > capacity
  · simp [hlapped]
  · have heven : loadVersion capacity shared.data (frameAddress capacity position) &&& 1 = 0 := by
      by_contra hodd
      exact h ⟨⟨hdata, UInt64.not_lt.mp hlapped⟩, hodd⟩
    by_cases hlength :
      (loadLength capacity shared.data (frameAddress capacity position)).toUInt64 > capacity
    · simp [hlapped, heven, hlength]
    · simp [hlapped, heven, hlength]

end Loop

/-- A call of `PollCopy` that runs alone returns within `kMaxRetries` iterations exactly if it does
not stand at data that is not lapped and whose version word is odd. -/
theorem poll_copy_returns (capacity : UInt64) (shared : Shared) (reader : BroadcastReader) :
    ReturnsWithin capacity shared reader kMaxRetries ↔ ¬ OddAt capacity shared reader.cursor := by
  constructor
  · intro h hodd
    obtain ⟨result, hresult⟩ := h hodd.1.1
    rw [copyLoop_odd hodd] at hresult
    cases hresult
  · intro h hdata
    obtain ⟨result, hpass⟩ := pollCopyPass_done hdata h
    refine ⟨result, ?_⟩
    simp only [kMaxRetries, copyLoop, hpass]

/-- A producer fills the buffer of one page, begins the next frame and dies after it has marked the
frame. The reader of the first frame is not lapped. -/
def diesInReserve : List Access.Event :=
  List.flatten [
    [.reserve 4072 1], List.replicate 7 (.access 0), [.commit], List.replicate 3 (.access 0),
    [.reserve 8 2], List.replicate 21 (.access 0), [.crash]]

/-- The call of that reader does not return. -/
theorem marked_frame_spins : ¬ ∀ machine,
    (Access.producer onePage).Reachable (fun _ _ => True) machine →
      ∀ reader, ReturnsWithin onePage.capacity machine.shared reader kMaxRetries := by
  intro h
  obtain ⟨machine, hreach, hgood⟩ := System.exists_reachable_of_replay (Access.producer onePage)
    (fun _ _ => True) (Access.created onePage 0) diesInReserve
    (fun machine => machine.process.isNone && decide (0 < machine.shared.header.commitCursor) &&
      decide (machine.shared.header.producerCursor - 0 ≤ onePage.capacity) &&
      loadVersion onePage.capacity machine.shared.data 0 &&& 1 != 0)
    (.init ⟨0, rfl⟩) (by decide +kernel)
  simp only [Bool.and_eq_true, decide_eq_true_eq, bne_iff_ne, ne_eq] at hgood
  obtain ⟨⟨⟨-, hdata⟩, hlapped⟩, hodd⟩ := hgood
  obtain ⟨result, hresult⟩ := h machine hreach {} hdata
  rw [copyLoop_odd ⟨⟨hdata, hlapped⟩, hodd⟩] at hresult
  cases hresult

end HotPath.SharedMemory
